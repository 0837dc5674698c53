import Mathlib.Data.List.Induction
import Mathlib.Logic.Function.Basic
import TruthSeeker.P2p.Server

namespace TruthSeeker.P2p

/-- The connection that a node opens to the other one, since when, and the message on it. -/
inductive Conn where
  | closed
  | greeted (time : TimestampMs) (hello : Handshake)
  | answered (time : TimestampMs) (verack : Handshake)
  | done (time : TimestampMs)
  deriving DecidableEq

inductive Kind where
  | hello
  | verack
  deriving DecidableEq

/-- Two nodes, the connection that each of them opens, and the order in which each of them has
handled the messages. -/
structure Pair (PublicKey BlstSignature : Type) where
  node : Bool → P2PServer PublicKey BlstSignature
  conn : Bool → Conn
  handled : Bool → List Kind

/-- Opening the connection of a node, and delivering the message on it. -/
inductive Step where
  | opens (x : Bool) (now : TimestampMs)
  | delivers (x : Bool)

def Step.delivered : Step → Option Bool
  | opens _ _ => none
  | delivers x => some x

namespace P2PServer
variable {PublicKey BlstSignature : Type} {self server : P2PServer PublicKey BlstSignature}
  {canal : Canal} {dest : String} {v : SignedByValidator NodeConnectionData}
  {timestamp : TimestampMs} {messages : List (String × Handshake)}

theorem validator_of_signed {signed : SignedByValidator NodeConnectionData}
    (h : self.createSignedNodeConnectionData=.ok signed) :
    signed.signature.validator=self.crypto.validatorPubkey := by
  obtain ⟨encoded,_,h⟩ := Outcome.bind_eq_ok.mp h
  cases h
  rfl

/-- A handshake that is begun: the stream is open and the greeting is on it. -/
theorem doHandshake_eq_ok {publicAddr : String} {done : Unit}
    (h : self.doHandshake publicAddr canal timestamp (.ok ())=(.ok done,messages,server)) :
    ∃ signed : SignedByValidator NodeConnectionData,
      signed.signature.validator=self.crypto.validatorPubkey ∧
      messages=[(clientAddr publicAddr canal,.hello canal signed timestamp)] ∧
      SamePeers self server ∧ server.sockets=self.sockets.insert (clientAddr publicAddr canal) := by
  unfold doHandshake at h
  cases made : self.createSignedNodeConnectionData with
  | error e =>
    rw [made] at h
    cases (Prod.mk.inj h).1
  | ok signed =>
    rw [made] at h
    dsimp only [send] at h
    rw [if_pos (by simp)] at h
    obtain ⟨_,rest⟩ := Prod.mk.inj h
    obtain ⟨rfl,rfl⟩ := Prod.mk.inj rest
    exact ⟨signed,validator_of_signed made,rfl,⟨rfl,rfl⟩,rfl⟩

/-- A greeting that is handled: the answer repeats the canal and the time. -/
theorem handleHello_eq_ok {event : Option NewPeer} (h : self.handleHandshake dest (.ok ())
      (.hello canal v timestamp)=(.ok event,messages,server)) :
    (∃ signed : SignedByValidator NodeConnectionData,
      signed.signature.validator=self.crypto.validatorPubkey ∧
      messages=[(dest,.verack canal signed timestamp)]) ∧
      server=(self.handlePeerUpdate canal v timestamp dest).2 := by
  dsimp only [handleHandshake] at h
  cases verified : self.crypto.verifySigned v with
  | error e =>
    rw [verified] at h
    cases (Prod.mk.inj h).1
  | ok valid =>
    rw [verified] at h
    cases made : self.createSignedNodeConnectionData with
    | error e =>
      rw [made] at h
      cases (Prod.mk.inj h).1
    | ok signed =>
      rw [made] at h
      dsimp only at h
      split at h
      · cases (Prod.mk.inj h).1
      · obtain ⟨_,rest⟩ := Prod.mk.inj h
        obtain ⟨rfl,rfl⟩ := Prod.mk.inj rest
        exact ⟨⟨signed,validator_of_signed made,rfl⟩,rfl⟩

theorem handleVerack_eq_ok {event : Option NewPeer} {answer : Except String Unit}
    (h : self.handleHandshake dest answer (.verack canal v timestamp)=(.ok event,messages,server)) :
    server=(self.handlePeerUpdate canal v timestamp dest).2 := by
  dsimp only [handleHandshake] at h
  cases verified : self.crypto.verifySigned v with
  | error e =>
    rw [verified] at h
    cases (Prod.mk.inj h).1
  | ok valid =>
    rw [verified] at h
    exact (Prod.mk.inj (Prod.mk.inj h).2).2.symm

/-- Which of two sockets a node keeps. -/
def keep (key peer : ValidatorPublicKey) (old new : PeerSocket) : PeerSocket :=
  if old.timestamp<new.timestamp ∨ old.timestamp=new.timestamp ∧ compare key peer=.lt then new
  else old

/-- The socket that is recorded after an update, and that its stream stays open. -/
theorem getSocket_update (timestamp : TimestampMs) (dest : String) {known : Option PeerSocket}
    (h : self.getSocket canal v.signature.validator=known) :
    let after := (self.handlePeerUpdate canal v timestamp dest).2
    let kept := known.elim ⟨timestamp,dest⟩
      (keep self.crypto.validatorPubkey v.signature.validator · ⟨timestamp,dest⟩)
    after.crypto=self.crypto ∧ after.getSocket canal v.signature.validator=some kept ∧
      (known=none → after.sockets=self.sockets) ∧
      (dest∈self.sockets → (∀ old ∈ known,old.socketAddr∈self.sockets ∧ old.socketAddr≠dest) →
        kept.socketAddr∈after.sockets) := by
  dsimp only
  cases known with
  | none =>
    obtain ⟨records,sockets⟩ := handlePeerUpdate_of_none timestamp dest h
    refine ⟨records.1,?_,fun _ => sockets,fun present _ => ?_⟩
    · rw [records.2,if_pos ⟨rfl,rfl⟩]
      rfl
    · rw [sockets]
      exact present
  | some old =>
    obtain ⟨replaced,kept⟩ := handlePeerUpdate_of_some timestamp dest h
    have erased : ∀ {addr other : String},addr∈self.sockets → addr≠other →
        addr∈self.sockets.erase other := by
      intro addr other present differs
      rw [Std.ExtTreeSet.mem_erase]
      exact ⟨fun same => differs (Std.LawfulEqOrd.eq_of_compare same).symm,present⟩
    by_cases yields : self.Yields v.signature.validator old timestamp
    · obtain ⟨records,sockets⟩ := replaced yields
      have new : keep self.crypto.validatorPubkey v.signature.validator old ⟨timestamp,dest⟩=
          ⟨timestamp,dest⟩ := if_pos yields
      refine ⟨records.1,?_,nofun,fun present others => ?_⟩
      · rw [records.2,if_pos ⟨rfl,rfl⟩,Option.elim_some,new]
      · rw [sockets,Option.elim_some,new]
        exact erased present (others old rfl).2.symm
    · obtain ⟨records,sockets⟩ := kept yields
      have same : keep self.crypto.validatorPubkey v.signature.validator old ⟨timestamp,dest⟩=
          old := if_neg yields
      refine ⟨records.1,?_,nofun,fun present others => ?_⟩
      · rw [records.2,if_pos ⟨rfl,rfl⟩,Option.elim_some,same]
      · rw [sockets,Option.elim_some,same]
        exact erased (others old rfl).1 (others old rfl).2

end P2PServer

namespace Pair
variable {PublicKey BlstSignature : Type}

section Code
/- The canal, the public address of each node, and the address under which each node accepts the
connection of the other one. -/
variable (canal : Canal) (publicAddr accepted : Bool → String)

/-- The stream of a node's own connection. -/
def own (x : Bool) : String := P2PServer.clientAddr (publicAddr !x) canal

def accept (x : Bool) (server : P2PServer PublicKey BlstSignature) :
    P2PServer PublicKey BlstSignature :=
  server.step (.accepted (accepted x))

def step (self : Pair PublicKey BlstSignature) : Step → Option (Pair PublicKey BlstSignature)
  | .opens x now =>
      match self.conn x,(self.node x).doHandshake (publicAddr !x) canal now (.ok ()) with
      | .closed,(.ok _,[(_,hello)],server) =>
          let other := accept accepted (!x) (self.node !x)
          some { self with
            node := Function.update (Function.update self.node x server) (!x) other
            conn := Function.update self.conn x (.greeted now hello) }
      | _,_ => none
  | .delivers x =>
      match self.conn x with
      | .greeted time hello =>
          match (self.node !x).handleHandshake (accepted !x) (.ok ()) hello with
          | (.ok _,[(_,verack)],server) =>
              some
                { node := Function.update self.node (!x) server
                  conn := Function.update self.conn x (.answered time verack)
                  handled := Function.update self.handled (!x) (self.handled (!x)++[.hello]) }
          | _ => none
      | .answered time verack =>
          match (self.node x).handleHandshake (own canal publicAddr x) (.ok ()) verack with
          | (.ok _,_,server) =>
              some
                { node := Function.update self.node x server
                  conn := Function.update self.conn x (.done time)
                  handled := Function.update self.handled x (self.handled x++[.verack]) }
          | _ => none
      | _ => none

def run (self : Pair PublicKey BlstSignature) (steps : List Step) :
    Option (Pair PublicKey BlstSignature) :=
  steps.foldlM (step canal publicAddr accepted) self

/-- The socket that a node records for the other one. -/
def recorded (self : Pair PublicKey BlstSignature) (x : Bool) : Option PeerSocket :=
  (self.node x).getSocket canal (self.node !x).crypto.validatorPubkey

/-- The node keeps the stream open that it records. -/
def Keeps (self : Pair PublicKey BlstSignature) (x : Bool) (addr : String) : Prop :=
  (self.recorded canal x).map PeerSocket.socketAddr=some addr ∧ addr∈(self.node x).sockets

/-- Both nodes keep the connection that one of them opened. -/
def Agree (self : Pair PublicKey BlstSignature) : Prop :=
  ∃ x,self.Keeps canal x (own canal publicAddr x) ∧ self.Keeps canal (!x) (accepted !x)

end Code

section Invariant
variable (canal : Canal) (publicAddr accepted : Bool → String) (time : Bool → TimestampMs)
  (key : Bool → ValidatorPublicKey)

/-- What a node learns of a stream from a message of the kind. -/
def socketOf (x : Bool) : Kind → PeerSocket
  | .hello => ⟨time !x,accepted x⟩
  | .verack => ⟨time x,own canal publicAddr x⟩

/-- The socket that is left when messages of these kinds were handled in this order. -/
def chosen (x : Bool) (kinds : List Kind) : Option PeerSocket :=
  kinds.foldl (fun known kind =>
    let socket := socketOf canal publicAddr accepted time x kind
    some (known.elim socket (P2PServer.keep (key x) (key !x) · socket))) none

/-- The node records the chosen socket, and its stream is open. -/
structure NodeTracks (x : Bool) (server : P2PServer PublicKey BlstSignature)
    (kinds : List Kind) : Prop where
  pubkey : server.crypto.validatorPubkey=key x
  recorded : server.getSocket canal (key !x)=chosen canal publicAddr accepted time key x kinds
  keeps : ∀ socket,chosen canal publicAddr accepted time key x kinds=some socket →
    socket.socketAddr∈server.sockets
  nodup : kinds.Nodup

/-- The message on the connection of a node, and who has handled which of the two. -/
def OnTheWay (s : Pair PublicKey BlstSignature) (x : Bool) : Conn → Prop
  | .closed => .hello∉s.handled (!x) ∧ .verack∉s.handled x
  | .greeted t h => t=time x ∧ (∃ v,h=.hello canal v t ∧ v.signature.validator=key x) ∧
      own canal publicAddr x∈(s.node x).sockets ∧ accepted (!x)∈(s.node !x).sockets ∧
        .hello∉s.handled (!x) ∧ .verack∉s.handled x
  | .answered t h => t=time x ∧ (∃ v,h=.verack canal v t ∧ v.signature.validator=key !x) ∧
      own canal publicAddr x∈(s.node x).sockets ∧ .hello∈s.handled (!x) ∧ .verack∉s.handled x
  | .done _ => .hello∈s.handled (!x) ∧ .verack∈s.handled x

structure Tracks (s : Pair PublicKey BlstSignature) : Prop where
  node : ∀ x,NodeTracks canal publicAddr accepted time key x (s.node x) (s.handled x)
  conn : ∀ x,OnTheWay canal publicAddr accepted time key s x (s.conn x)

/-- What the nodes have handled first, by the connections on which messages were delivered. -/
def Begun (s : Pair PublicKey BlstSignature) : List Bool → Prop
  | [] => ∀ x,s.handled x=[]
  | [x] => s.handled x=[] ∧ s.handled (!x)=[.hello]
  | x::y::_ => (s.handled x).head?=some (if y=x then .verack else .hello) ∧
      (s.handled !x).head?=some .hello

end Invariant

section Nodes
variable {canal : Canal} {publicAddr accepted : Bool → String} {time : Bool → TimestampMs}
  {key : Bool → ValidatorPublicKey} {x : Bool} {server after : P2PServer PublicKey BlstSignature}
  {kinds : List Kind} {kind : Kind}

theorem chosen_concat : chosen canal publicAddr accepted time key x (kinds++[kind])=
    some ((chosen canal publicAddr accepted time key x kinds).elim
      (socketOf canal publicAddr accepted time x kind)
      (P2PServer.keep (key x) (key !x) · (socketOf canal publicAddr accepted time x kind))) := by
  rw [chosen,List.foldl_append]
  rfl

theorem exists_of_chosen {socket : PeerSocket}
    (h : chosen canal publicAddr accepted time key x kinds=some socket) :
    ∃ kind ∈ kinds,socket=socketOf canal publicAddr accepted time x kind := by
  induction kinds using List.reverseRecOn generalizing socket with
  | nil => cases h
  | append_singleton kinds kind ih =>
    rw [chosen_concat] at h
    have last := List.mem_append_right kinds (List.mem_cons_self (a := kind) (l := []))
    cases known : chosen canal publicAddr accepted time key x kinds with
    | none =>
      rw [known] at h
      exact ⟨kind,last,(Option.some.inj h).symm⟩
    | some old =>
      rw [known,Option.elim_some,P2PServer.keep] at h
      split_ifs at h
      · exact ⟨kind,last,(Option.some.inj h).symm⟩
      · obtain ⟨earlier,listed,eq⟩ := ih known
        exact ⟨earlier,List.mem_append_left _ listed,(Option.some.inj h).symm.trans eq⟩

/-- The streams of the two connections have different names. -/
theorem socketAddr_injective (ha : own canal publicAddr x≠accepted x) {other : Kind}
    (h : (socketOf canal publicAddr accepted time x kind).socketAddr=
      (socketOf canal publicAddr accepted time x other).socketAddr) : kind=other := by
  cases kind <;> cases other
  · rfl
  · exact absurd h.symm ha
  · exact absurd h ha
  · rfl

theorem NodeTracks.more (h : NodeTracks canal publicAddr accepted time key x server kinds)
    (hp : P2PServer.SamePeers server after) (hs : ∀ addr ∈ server.sockets,addr∈after.sockets) :
    NodeTracks canal publicAddr accepted time key x after kinds where
  pubkey := by
    rw [hp.1]
    exact h.pubkey
  recorded := by
    rw [P2PServer.getSocket,hp.2]
    exact h.recorded
  keeps socket hk := hs _ (h.keeps socket hk)
  nodup := h.nodup

/-- A node that handles a message of a new kind on an open stream. -/
theorem NodeTracks.handle (h : NodeTracks canal publicAddr accepted time key x server kinds)
    (ha : own canal publicAddr x≠accepted x) (hk : kind∉kinds)
    {v : SignedByValidator NodeConnectionData} (hv : v.signature.validator=key !x)
    (hd : (socketOf canal publicAddr accepted time x kind).socketAddr∈server.sockets)
    (hs : after=(server.handlePeerUpdate canal v
      (socketOf canal publicAddr accepted time x kind).timestamp
      (socketOf canal publicAddr accepted time x kind).socketAddr).2) :
    NodeTracks canal publicAddr accepted time key x after (kinds++[kind]) ∧
      (kinds=[] → after.sockets=server.sockets) := by
  have known := h.recorded
  rw [← hv] at known
  obtain ⟨crypto,recorded,first,keeps⟩ := P2PServer.getSocket_update
    (socketOf canal publicAddr accepted time x kind).timestamp
    (socketOf canal publicAddr accepted time x kind).socketAddr known
  rw [← hs] at crypto recorded first keeps
  rw [hv,h.pubkey] at recorded keeps
  have kept := keeps hd (by
    intro old ho
    obtain ⟨other,listed,rfl⟩ := exists_of_chosen ho
    refine ⟨h.keeps _ ho,fun same => hk ?_⟩
    rwa [← socketAddr_injective ha same])
  refine ⟨⟨?_,?_,?_,?_⟩,?_⟩
  · rw [crypto]
    exact h.pubkey
  · rw [chosen_concat]
    exact recorded
  · intro socket hc
    rw [chosen_concat] at hc
    rw [← Option.some.inj hc]
    exact kept
  · exact List.nodup_append.mpr ⟨h.nodup,List.nodup_singleton kind,by
      rintro a listed b hb rfl
      obtain rfl := List.mem_singleton.mp hb
      exact hk listed⟩
  · rintro rfl
    exact first rfl

end Nodes

section Steps
variable {canal : Canal} {publicAddr accepted : Bool → String} {time : Bool → TimestampMs}
  {key : Bool → ValidatorPublicKey} {s s' : Pair PublicKey BlstSignature} {x : Bool}

theorem eq_nil_of_not_mem {kinds : List Kind} (hh : .hello∉kinds) (hv : .verack∉kinds) :
    kinds=[] := by
  apply List.eq_nil_iff_forall_not_mem.mpr
  intro kind
  cases kind with
  | hello => exact hh
  | verack => exact hv

/-- What was handled first stays so. -/
theorem head?_update {handled : Bool → List Kind} {y : Bool} {kind last : Kind}
    (h : (handled y).head?=some kind) :
    (Function.update handled x (handled x++[last]) y).head?=some kind := by
  by_cases same : y=x
  · subst same
    rw [Function.update_self,List.head?_append,h]
    rfl
  · rw [Function.update_of_ne same]
    exact h

/-- What is on a connection depends on what its two ends have handled of it, and on their streams
as long as they have not. -/
theorem OnTheWay.frame {c : Conn} (h : OnTheWay canal publicAddr accepted time key s x c)
    (hh : .hello∈s'.handled (!x) ↔ .hello∈s.handled (!x))
    (hv : .verack∈s'.handled x ↔ .verack∈s.handled x)
    (ho : .verack∉s.handled x → ∀ addr ∈ (s.node x).sockets,addr∈(s'.node x).sockets)
    (ha : .hello∉s.handled (!x) → ∀ addr ∈ (s.node !x).sockets,addr∈(s'.node !x).sockets) :
    OnTheWay canal publicAddr accepted time key s' x c := by
  cases c with
  | closed => exact ⟨mt hh.mp h.1,mt hv.mp h.2⟩
  | greeted t hello =>
    obtain ⟨since,made,own,other,no,none⟩ := h
    exact ⟨since,made,ho none _ own,ha no _ other,mt hh.mp no,mt hv.mp none⟩
  | answered t verack =>
    obtain ⟨since,made,own,greeted,none⟩ := h
    exact ⟨since,made,ho none _ own,hh.mpr greeted,mt hv.mp none⟩
  | done t => exact ⟨hh.mpr h.1,hv.mpr h.2⟩

theorem opens_eq_some {now : TimestampMs}
    (h : s.step canal publicAddr accepted (.opens x now)=some s') :
    s.conn x=.closed ∧ ∃ done addr hello server,
      (s.node x).doHandshake (publicAddr !x) canal now (.ok ())=
        (.ok done,[(addr,hello)],server) ∧
      s'={ s with
        node := Function.update (Function.update s.node x server) (!x)
          (accept accepted (!x) (s.node !x))
        conn := Function.update s.conn x (.greeted now hello) } := by
  dsimp only [step] at h
  split at h
  · next done addr hello server conn opened =>
    exact ⟨conn,done,addr,hello,server,opened,(Option.some.inj h).symm⟩
  · cases h

theorem delivers_eq_some (h : s.step canal publicAddr accepted (.delivers x)=some s') :
    (∃ time hello event addr verack server,s.conn x=.greeted time hello ∧
      (s.node !x).handleHandshake (accepted !x) (.ok ()) hello=
        (.ok event,[(addr,verack)],server) ∧
      s'={ node := Function.update s.node (!x) server
           conn := Function.update s.conn x (.answered time verack)
           handled := Function.update s.handled (!x) (s.handled (!x)++[.hello]) }) ∨
    (∃ time verack event messages server,s.conn x=.answered time verack ∧
      (s.node x).handleHandshake (own canal publicAddr x) (.ok ()) verack=
        (.ok event,messages,server) ∧
      s'={ node := Function.update s.node x server
           conn := Function.update s.conn x (.done time)
           handled := Function.update s.handled x (s.handled x++[.verack]) }) := by
  dsimp only [step] at h
  split at h
  · next time hello conn =>
    split at h
    · next event addr verack server handled =>
      exact Or.inl ⟨time,hello,event,addr,verack,server,conn,handled,(Option.some.inj h).symm⟩
    · cases h
  · next time verack conn =>
    split at h
    · next event messages server handled =>
      exact Or.inr ⟨time,verack,event,messages,server,conn,handled,(Option.some.inj h).symm⟩
    · cases h
  · cases h

theorem Tracks.opens {now : TimestampMs} (h : Tracks canal publicAddr accepted time key s)
    (ht : now=time x) (hs : s.step canal publicAddr accepted (.opens x now)=some s') :
    Tracks canal publicAddr accepted time key s' := by
  obtain ⟨closed,_,addr,hello,server,opened,rfl⟩ := opens_eq_some hs
  obtain ⟨signed,signer,sent,same,sockets⟩ := P2PServer.doHandshake_eq_ok opened
  obtain ⟨rfl,rfl⟩ := Prod.mk.inj (List.cons.inj sent).1
  have more : ∀ addr ∈ (s.node x).sockets,addr∈server.sockets := by
    intro addr present
    rw [sockets]
    exact Std.ExtTreeSet.mem_insert.mpr (Or.inr present)
  have accepts : ∀ addr ∈ (s.node !x).sockets,addr∈(accept accepted (!x) (s.node !x)).sockets :=
    fun addr present => Std.ExtTreeSet.mem_insert.mpr (Or.inr present)
  have before := h.conn x
  rw [closed] at before
  refine ⟨fun y => ?_,fun y => ?_⟩
  · obtain rfl|rfl := Bool.eq_or_eq_not y x
    · simpa using (h.node y).more same more
    · dsimp only
      rw [Function.update_self]
      exact (h.node !x).more ⟨rfl,rfl⟩ accepts
  · obtain rfl|rfl := Bool.eq_or_eq_not y x
    · dsimp only
      rw [Function.update_self]
      refine ⟨ht,⟨signed,rfl,signer.trans (h.node y).pubkey⟩,?_,?_,before⟩
      · simp [sockets,own]
      · simp [accept,P2PServer.step]
    · dsimp only
      rw [Function.update_of_ne (Bool.not_ne_self x)]
      refine (h.conn !x).frame Iff.rfl Iff.rfl (fun _ => ?_) (fun _ => ?_)
      · simpa using accepts
      · simpa using more

/-- The greeting of a node is handled by the other one. -/
theorem Tracks.greets {t : TimestampMs} {hello verack : Handshake} {event : Option NewPeer}
    {addr : String} {server : P2PServer PublicKey BlstSignature}
    (h : Tracks canal publicAddr accepted time key s) (ha : ∀ x,own canal publicAddr x≠accepted x)
    (hc : s.conn x=.greeted t hello) (hh : (s.node !x).handleHandshake (accepted !x) (.ok ()) hello=
      (.ok event,[(addr,verack)],server)) :
    Tracks canal publicAddr accepted time key
      { node := Function.update s.node (!x) server
        conn := Function.update s.conn x (.answered t verack)
        handled := Function.update s.handled (!x) (s.handled (!x)++[.hello]) } := by
  have before := h.conn x
  rw [hc] at before
  obtain ⟨rfl,⟨v,rfl,signer⟩,own_,other,new,none⟩ := before
  obtain ⟨⟨signed,answerer,sent⟩,rfl⟩ := P2PServer.handleHello_eq_ok hh
  obtain ⟨_,rfl⟩ := Prod.mk.inj (List.cons.inj sent).1
  have back : (!!x)=x := Bool.not_not x
  obtain ⟨tracks,first⟩ := (h.node !x).handle (ha !x) new (v := v) (by rw [back,signer]) other
    (by rw [socketOf,back])
  have kept : ∀ addr,.verack∉s.handled (!x) → addr∈(s.node !x).sockets →
      addr∈((s.node !x).handlePeerUpdate canal v (time x) (accepted !x)).2.sockets := by
    intro addr none present
    rw [first (eq_nil_of_not_mem new none)]
    exact present
  refine ⟨fun y => ?_,fun y => ?_⟩
  · obtain rfl|rfl := Bool.eq_or_eq_not y x
    · simpa using h.node y
    · simpa using tracks
  · obtain rfl|rfl := Bool.eq_or_eq_not y x
    · dsimp only
      rw [Function.update_self]
      refine ⟨rfl,⟨signed,rfl,answerer.trans (h.node !y).pubkey⟩,?_,?_,?_⟩
      · simpa using own_
      · simp
      · simpa using none
    · dsimp only
      rw [Function.update_of_ne (Bool.not_ne_self x)]
      refine (h.conn !x).frame ?_ ?_ (fun none addr => ?_) (fun _ addr => ?_)
      · simp
      · simp
      · simpa using kept addr none
      · simp

/-- The answer to a node is handled by it. -/
theorem Tracks.answers {t : TimestampMs} {verack : Handshake} {event : Option NewPeer}
    {messages : List (String × Handshake)} {server : P2PServer PublicKey BlstSignature}
    (h : Tracks canal publicAddr accepted time key s) (ha : ∀ x,own canal publicAddr x≠accepted x)
    (hc : s.conn x=.answered t verack)
    (hh : (s.node x).handleHandshake (own canal publicAddr x) (.ok ()) verack=
      (.ok event,messages,server)) :
    Tracks canal publicAddr accepted time key
      { node := Function.update s.node x server
        conn := Function.update s.conn x (.done t)
        handled := Function.update s.handled x (s.handled x++[.verack]) } := by
  have before := h.conn x
  rw [hc] at before
  obtain ⟨rfl,⟨v,rfl,signer⟩,opened,greeted,new⟩ := before
  obtain rfl := P2PServer.handleVerack_eq_ok hh
  obtain ⟨tracks,first⟩ := (h.node x).handle (ha x) new signer opened rfl
  dsimp only [socketOf] at tracks first
  have kept : ∀ addr,.hello∉s.handled x → addr∈(s.node x).sockets →
      addr∈((s.node x).handlePeerUpdate canal v (time x) (own canal publicAddr x)).2.sockets := by
    intro addr none present
    rw [first (eq_nil_of_not_mem none new)]
    exact present
  refine ⟨fun y => ?_,fun y => ?_⟩
  · obtain rfl|rfl := Bool.eq_or_eq_not y x
    · simpa using tracks
    · simpa using h.node !x
  · obtain rfl|rfl := Bool.eq_or_eq_not y x
    · dsimp only
      rw [Function.update_self]
      refine ⟨?_,?_⟩
      · simpa using greeted
      · simp
    · dsimp only
      rw [Function.update_of_ne (Bool.not_ne_self x)]
      refine (h.conn !x).frame ?_ ?_ (fun _ addr => ?_) (fun none addr => ?_)
      · simp
      · simp
      · simp
      · simpa using kept addr (by simpa using none)

theorem Tracks.step {st : Step} (h : Tracks canal publicAddr accepted time key s)
    (ha : ∀ x,own canal publicAddr x≠accepted x) (ht : ∀ x now,st=.opens x now → now=time x)
    (hs : s.step canal publicAddr accepted st=some s') :
    Tracks canal publicAddr accepted time key s' := by
  cases st with
  | opens x now => exact h.opens (ht x now rfl) hs
  | delivers x =>
    obtain ⟨t,hello,event,addr,verack,server,greeted,handled,rfl⟩|
      ⟨t,verack,event,messages,server,answered,handled,rfl⟩ := delivers_eq_some hs
    · exact h.greets ha greeted handled
    · exact h.answers ha answered handled

/-- The first message on a connection is handled by the other node, the second by its own. -/
theorem Begun.step {st : Step} {deliveries : List Bool} (hb : s.Begun deliveries)
    (h : Tracks canal publicAddr accepted time key s)
    (hs : s.step canal publicAddr accepted st=some s') :
    s'.Begun (deliveries++st.delivered.toList) := by
  cases st with
  | opens x now =>
    obtain ⟨_,_,_,_,_,_,rfl⟩ := opens_eq_some hs
    rw [Step.delivered,Option.toList_none,List.append_nil]
    cases deliveries with
    | nil => exact hb
    | cons y rest => cases rest <;> exact hb
  | delivers x =>
    have before := h.conn x
    rw [Step.delivered,Option.toList_some]
    obtain ⟨t,hello,event,addr,verack,server,greeted,_,rfl⟩|
      ⟨t,verack,event,messages,server,answered,_,rfl⟩ := delivers_eq_some hs
    · rw [greeted] at before
      obtain ⟨_,_,_,_,new,_⟩ := before
      match deliveries with
      | [] =>
        refine ⟨?_,?_⟩
        · simpa using hb x
        · simpa using hb !x
      | [y] =>
        obtain ⟨none,only⟩ := hb
        obtain rfl|rfl := Bool.eq_or_eq_not x y
        · simp [only] at new
        · simp [Begun,none,only]
      | y::z::rest => exact ⟨head?_update hb.1,head?_update hb.2⟩
    · rw [answered] at before
      obtain ⟨_,_,_,greeted,_⟩ := before
      match deliveries with
      | [] =>
        rw [hb] at greeted
        cases greeted
      | [y] =>
        obtain ⟨none,only⟩ := hb
        obtain rfl|rfl := Bool.eq_or_eq_not x y
        · simp [Begun,none,only]
        · simp [none] at greeted
      | y::z::rest => exact ⟨head?_update hb.1,head?_update hb.2⟩

theorem Tracks.run {steps : List Step} (deliveries : List Bool)
    (h : Tracks canal publicAddr accepted time key s) (hb : s.Begun deliveries)
    (ha : ∀ x,own canal publicAddr x≠accepted x)
    (ht : ∀ x now,Step.opens x now∈steps → now=time x)
    (hs : s.run canal publicAddr accepted steps=some s') :
    Tracks canal publicAddr accepted time key s' ∧
      s'.Begun (deliveries++steps.filterMap Step.delivered) := by
  induction steps generalizing s deliveries with
  | nil =>
    cases hs
    rw [List.filterMap_nil,List.append_nil]
    exact ⟨h,hb⟩
  | cons st rest ih =>
    rw [Pair.run,List.foldlM_cons] at hs
    obtain ⟨next,first,later⟩ := Option.bind_eq_some_iff.mp hs
    have tracks := h.step ha (fun x now same => ht x now (same ▸ List.mem_cons_self)) first
    have both := ih _ tracks (hb.step h first)
      (fun x now listed => ht x now (List.mem_cons_of_mem _ listed)) later
    rw [List.append_assoc] at both
    cases st <;> exact both

end Steps

section Agreement
variable (canal : Canal) (publicAddr accepted : Bool → String) (time : Bool → TimestampMs)
  (key : Bool → ValidatorPublicKey)

/-- Of two messages, the one whose connection is kept if they are handled in this order. -/
def kept (x : Bool) (first second : Kind) : Kind :=
  let age := fun kind => (socketOf canal publicAddr accepted time x kind).timestamp
  if age first<age second ∨ age first=age second ∧ compare (key x) (key !x)=.lt then second
  else first

variable {canal publicAddr accepted time key} {s : Pair PublicKey BlstSignature} {x : Bool}

theorem chosen_pair {first second : Kind} :
    chosen canal publicAddr accepted time key x [first,second]=
      some (socketOf canal publicAddr accepted time x
        (kept canal publicAddr accepted time key x first second)) := by
  rw [kept,apply_ite (socketOf canal publicAddr accepted time x)]
  rfl

theorem keeps_iff (h : Tracks canal publicAddr accepted time key s)
    (ha : own canal publicAddr x≠accepted x) {first second : Kind} (kind : Kind)
    (hh : s.handled x=[first,second]) :
    s.Keeps canal x (socketOf canal publicAddr accepted time x kind).socketAddr ↔
      kept canal publicAddr accepted time key x first second=kind := by
  have recorded := (h.node x).recorded
  rw [hh,chosen_pair,← (h.node !x).pubkey] at recorded
  constructor
  · rintro ⟨same,_⟩
    rw [Pair.recorded,recorded] at same
    exact socketAddr_injective ha (Option.some.inj same)
  · rintro rfl
    refine ⟨by rw [Pair.recorded,recorded]; rfl,(h.node x).keeps _ ?_⟩
    rw [hh,chosen_pair]

theorem agree_iff_kept (h : Tracks canal publicAddr accepted time key s)
    (ha : ∀ x,own canal publicAddr x≠accepted x) {a b c d : Kind} (hx : s.handled x=[a,b])
    (hy : s.handled (!x)=[c,d]) : s.Agree canal publicAddr accepted ↔
      kept canal publicAddr accepted time key x a b≠
        kept canal publicAddr accepted time key (!x) c d := by
  have keeps := fun kind => keeps_iff h (ha x) kind hx
  have keeps' := fun kind => keeps_iff h (ha !x) kind hy
  constructor
  · rintro ⟨y,verack,hello⟩
    obtain rfl|rfl := Bool.eq_or_eq_not y x
    · rw [(keeps .verack).mp verack,(keeps' .hello).mp hello]
      nofun
    · rw [Bool.not_not] at hello
      rw [(keeps .hello).mp hello,(keeps' .verack).mp verack]
      nofun
  · intro differ
    have opposite : ∀ {a b : Kind},a≠b → a=.verack ∧ b=.hello ∨ a=.hello ∧ b=.verack := by
      intro a b
      cases a <;> cases b <;> decide
    obtain ⟨verack,hello⟩|⟨hello,verack⟩ := opposite differ
    · exact ⟨x,(keeps .verack).mpr verack,(keeps' .hello).mpr hello⟩
    · refine ⟨!x,(keeps' .verack).mpr verack,?_⟩
      rw [Bool.not_not]
      exact (keeps .hello).mpr hello

theorem handled_of_done {t : TimestampMs} (h : Tracks canal publicAddr accepted time key s)
    (hd : s.conn x=.done t) : .hello∈s.handled (!x) ∧ .verack∈s.handled x := by
  have way := h.conn x
  rw [hd] at way
  exact way

/-- Both messages are handled once, so that the first one says in which order. -/
theorem eq_pair_of_head? {kinds : List Kind} {first : Kind} (hn : kinds.Nodup)
    (hh : .hello∈kinds) (hv : .verack∈kinds) (hf : kinds.head?=some first) :
    kinds=[first,if first=.hello then .verack else .hello] := by
  match kinds with
  | [a] => cases a <;> simp at hh hv
  | [a,b] =>
    obtain rfl := Option.some.inj hf
    cases a <;> cases b <;> simp_all
  | a::b::c::rest => cases a <;> cases b <;> cases c <;> simp at hn

/-- Which of the two nodes has handled which message first decides only if the times are equal. -/
theorem kept_ne_kept {first : Kind} (hk : key x≠key !x) :
    kept canal publicAddr accepted time key x first (if first=.hello then .verack else .hello)≠
      kept canal publicAddr accepted time key (!x) .hello .verack ↔
      time x≠time (!x) ∨ first=.hello := by
  have order : compare (key !x) (key x)=.lt ↔ ¬compare (key x) (key !x)=.lt := by
    rw [Std.OrientedOrd.eq_swap (a := key !x)]
    have unequal : compare (key x) (key !x)≠.eq := fun same => hk (Std.LawfulEqOrd.eq_of_compare same)
    cases smaller : compare (key x) (key !x) with
    | eq => exact absurd smaller unequal
    | lt => simp
    | gt => simp
  have times : time x<time (!x) ∧ ¬time (!x)<time x ∧ time x≠time (!x) ∨
      time (!x)<time x ∧ ¬time x<time (!x) ∧ time x≠time (!x) ∨ time x=time (!x) := by
    bv_omega
  simp only [kept,socketOf,Bool.not_not,order]
  by_cases smaller : compare (key x) (key !x)=.lt
  · obtain ⟨lt,le,ne⟩|⟨lt,le,ne⟩|eq := times
    · cases first <;> simp [lt,le,ne,ne.symm]
    · cases first <;> simp [lt,le,ne,ne.symm]
    · cases first <;> simp [eq,smaller]
  · obtain ⟨lt,le,ne⟩|⟨lt,le,ne⟩|eq := times
    · cases first <;> simp [lt,le,ne,ne.symm]
    · cases first <;> simp [lt,le,ne,ne.symm]
    · cases first <;> simp [eq,smaller]

end Agreement

/-- Both nodes keep the same connection if and only if the times differ or the first two messages
that are delivered are the two greetings. -/
theorem agree_iff {canal : Canal} {publicAddr accepted : Bool → String}
    (time : Bool → TimestampMs) {s s' : Pair PublicKey BlstSignature} {steps : List Step}
    (ha : ∀ x,'/'∉(accepted x).toList)
    (hk : (s.node true).crypto.validatorPubkey≠(s.node false).crypto.validatorPubkey)
    (hc : ∀ x,s.conn x=.closed) (hh : ∀ x,s.handled x=[]) (hr : ∀ x,s.recorded canal x=none)
    (ht : ∀ x now,Step.opens x now∈steps → now=time x)
    (hs : s.run canal publicAddr accepted steps=some s') (hd : ∀ x,∃ t,s'.conn x=.done t) :
    s'.Agree canal publicAddr accepted ↔ time true≠time false ∨
      ∃ x rest,steps.filterMap Step.delivered=x::(!x)::rest := by
  have differs : ∀ x,own canal publicAddr x≠accepted x := by
    intro x same
    apply ha x
    rw [← same]
    simp [own,P2PServer.clientAddr,toString]
  have start : Tracks canal publicAddr accepted time
      (fun x => (s.node x).crypto.validatorPubkey) s := by
    refine ⟨fun x => ⟨rfl,?_,?_,?_⟩,fun x => ?_⟩
    · rw [hh]
      exact hr x
    · rw [hh]
      nofun
    · rw [hh]
      exact List.nodup_nil
    · rw [hc]
      simp [OnTheWay,hh]
  obtain ⟨tracks,begun⟩ := start.run [] hh differs ht hs
  rw [List.nil_append] at begun
  have handled := fun x => (hd x).elim fun _ done => handled_of_done tracks done
  have nodup := fun x => (tracks.node x).nodup
  match listed : steps.filterMap Step.delivered with
  | [] =>
    rw [listed] at begun
    have none := (handled true).2
    rw [begun] at none
    cases none
  | [x] =>
    rw [listed] at begun
    have none := (handled x).2
    rw [begun.1] at none
    cases none
  | x::y::rest =>
    rw [listed] at begun
    have greeted := (handled !x).1
    rw [Bool.not_not] at greeted
    have own_ := eq_pair_of_head? (nodup x) greeted (handled x).2 begun.1
    have other := eq_pair_of_head? (nodup !x) (handled x).1 (handled !x).2 begun.2
    rw [agree_iff_kept tracks differs own_ other]
    have unequal : (s.node x).crypto.validatorPubkey≠(s.node !x).crypto.validatorPubkey := by
      cases x
      · exact hk.symm
      · exact hk
    refine (kept_ne_kept unequal).trans (or_congr ?_ ?_)
    · cases x
      · exact ne_comm
      · exact Iff.rfl
    · constructor
      · intro greeting
        obtain rfl|rfl := Bool.eq_or_eq_not y x
        · cases (if_pos rfl).symm.trans greeting
        · exact ⟨x,rest,rfl⟩
      · rintro ⟨z,others,same⟩
        obtain ⟨rfl,same⟩ := List.cons.inj same
        obtain ⟨rfl,_⟩ := List.cons.inj same
        exact if_neg (Bool.not_ne_self x)

def hostAddr (x : Bool) : String := if x then "second:4141" else "first:4141"

def acceptedAddr (x : Bool) : String := if x then "10.0.0.1:50000" else "10.0.0.2:50000"

/-- Two nodes, of which the first one has the smaller key. -/
def hosts : Pair Bytes Bytes where
  node x :=
    { crypto := { Blst.ofVoters (fun _ _ => true) with
        signBytes := id
        validatorPubkey := if x then [2] else [1] }
      nodeId := if x then "second" else "first"
      connecting := ∅
      nodeP2pPublicAddress := hostAddr x
      nodeDaPublicAddress := hostAddr x
      currentHeight := 0
      sockets := ∅
      peers := ∅ }
  conn _ := .closed
  handled _ := []

/-- The first node is answered before it is greeted. -/
def crossing (time : Bool → TimestampMs) : List Step :=
  [.opens false (time false),.opens true (time true),.delivers false,.delivers false,
    .delivers true,.delivers true]

theorem agree_crossing :
    ∃ s',hosts.run "p2p" hostAddr acceptedAddr (crossing fun x => if x then 6 else 5)=some s' ∧
      s'.Agree "p2p" hostAddr acceptedAddr := by
  have completes :
      (hosts.run "p2p" hostAddr acceptedAddr (crossing fun x => if x then 6 else 5)).isSome := by
    decide +kernel
  obtain ⟨s',hs⟩ := Option.isSome_iff_exists.mp completes
  have done_ : ∀ x,(hosts.run "p2p" hostAddr acceptedAddr
      (crossing fun x => if x then 6 else 5)).map (conn · x)=
        some (.done (if x then 6 else 5)) := by
    decide +kernel
  refine ⟨s',hs,?_⟩
  refine (agree_iff (fun x => if x then 6 else 5) ?_ ?_ (fun _ => rfl) (fun _ => rfl) ?_ ?_ hs
    fun x => ?_).mpr (Or.inl (by decide))
  · decide +kernel
  · decide +kernel
  · decide +kernel
  · intro x now listed
    simp [crossing] at listed
    obtain ⟨rfl,rfl⟩|⟨rfl,rfl⟩ := listed
    · rfl
    · rfl
  · have ended := done_ x
    rw [hs] at ended
    exact ⟨_,Option.some.inj ended⟩

/-- Both nodes have handled everything, and each of them has dropped the connection that the other
one keeps. -/
theorem not_agree_crossing :
    ∃ s',hosts.run "p2p" hostAddr acceptedAddr (crossing fun _ => 5)=some s' ∧
      (∀ x,s'.conn x=.done 5) ∧ ¬s'.Agree "p2p" hostAddr acceptedAddr := by
  have completes : (hosts.run "p2p" hostAddr acceptedAddr (crossing fun _ => 5)).isSome := by
    decide +kernel
  obtain ⟨s',hs⟩ := Option.isSome_iff_exists.mp completes
  have done_ : ∀ x,(hosts.run "p2p" hostAddr acceptedAddr (crossing fun _ => 5)).map
      (conn · x)=some (.done 5) := by
    decide +kernel
  have apart : ∀ x,(hosts.run "p2p" hostAddr acceptedAddr (crossing fun _ => 5)).map
      (recorded "p2p" · x)=some (some ⟨5,acceptedAddr x⟩) := by
    decide +kernel
  rw [hs] at done_ apart
  refine ⟨s',hs,fun x => Option.some.inj (done_ x),?_⟩
  rintro ⟨x,⟨keeps,_⟩,_⟩
  have accepts : s'.recorded "p2p" x=some ⟨5,acceptedAddr x⟩ := Option.some.inj (apart x)
  rw [accepts] at keeps
  have differs : ∀ x,acceptedAddr x≠own "p2p" hostAddr x := by decide +kernel
  exact differs x (Option.some.inj keeps)

end Pair

end TruthSeeker.P2p
