import Mathlib.Data.List.Induction
import TruthSeeker.Framework.Trace
import TruthSeeker.P2p.Server

namespace TruthSeeker.P2p.P2PServer

variable {PublicKey BlstSignature : Type}

section Definitions
variable (signed : ValidatorPublicKey → Bytes → Prop)
  (chosen : ValidatorPublicKey → Canal → NodeConnectionData → TimestampMs → Prop)

/-- The holder of the key has signed the data, and has sent them with this canal and time. -/
structure Authentic (crypto : BlstCrypto PublicKey BlstSignature) (h : Handshake) : Prop where
  verified : crypto.verifySigned h.v=.ok true
  signed : ∃ encoded,toVec h.v.msg=.ok encoded ∧ signed h.v.signature.validator encoded
  chosen : chosen h.v.signature.validator h.canal h.v.msg h.timestamp

/-- A handshake whose verification returns does not return false, and data that its signer signed
come with the canal and the time that they were sent with. -/
def Sound (crypto : BlstCrypto PublicKey BlstSignature) : Event → Prop
  | .handshake _ h _ =>
      crypto.verifySigned h.v≠.ok false ∧
        ∀ encoded,toVec h.v.msg=.ok encoded → signed h.v.signature.validator encoded →
          chosen h.v.signature.validator h.canal h.v.msg h.timestamp
  | _ => True

variable (self : P2PServer PublicKey BlstSignature) (events : List Event)

/-- Each recorded socket was set by an authentic handshake that came on it. -/
def SocketsAuthentic : Prop :=
  ∀ pk c socket,(self.run events).getSocket c pk=some socket → ∃ h answer,
    .handshake socket.socketAddr h answer∈events ∧ h.v.signature.validator=pk ∧ h.canal=c ∧
      h.timestamp=socket.timestamp ∧ Authentic signed chosen self.crypto h

/-- A handshake makes the server drop only the stream that it came on, and the one recorded for
its signer if it is authentic. -/
def DropsAuthentic : Prop :=
  ∀ before dest h answer after,events=before++.handshake dest h answer::after →
    ∀ addr ∈ (self.run before).sockets,
      addr∉((self.run before).step (.handshake dest h answer)).sockets → addr=dest ∨
        Authentic signed chosen self.crypto h ∧ ∃ socket,socket.socketAddr=addr ∧
          (self.run before).getSocket h.canal h.v.signature.validator=some socket

end Definitions

variable {signed : ValidatorPublicKey → Bytes → Prop}
  {chosen : ValidatorPublicKey → Canal → NodeConnectionData → TimestampMs → Prop}
  {self : P2PServer PublicKey BlstSignature} {event : Event}

theorem crypto_handlePeerUpdate {canal : Canal} {v : SignedByValidator NodeConnectionData}
    {timestamp : TimestampMs} {dest : String} :
    (self.handlePeerUpdate canal v timestamp dest).2.crypto=self.crypto := by
  cases h : self.getSocket canal v.signature.validator with
  | none => exact (handlePeerUpdate_of_none timestamp dest h).1.1
  | some old =>
    obtain ⟨replaced,kept⟩ := handlePeerUpdate_of_some timestamp dest h
    by_cases yields : self.Yields v.signature.validator old timestamp
    · exact (replaced yields).1.1
    · exact (kept yields).1.1

/-- Only handshakes and removals change what is known of the peers. -/
theorem step_cases (self : P2PServer PublicKey BlstSignature) (event : Event) :
    SamePeers self (self.step event) ∨
    (∃ pubkey canal,self.step event=self.removePeer pubkey canal) ∨
    ∃ dest h answer,event=.handshake dest h answer ∧
      (∃ valid,self.crypto.verifySigned h.v=.ok valid) ∧
        self.step event=(self.handlePeerUpdate h.canal h.v h.timestamp dest).2 := by
  cases event with
  | accepted socketAddr => exact Or.inl ⟨rfl,rfl⟩
  | handshake dest h answer =>
    obtain same|⟨verified,update⟩ := handleHandshake_cases self dest answer h
    · exact Or.inl ⟨congrArg P2PServer.crypto same,congrArg P2PServer.peers same⟩
    · exact Or.inr (Or.inr ⟨dest,h,answer,rfl,verified,update⟩)
  | lost order dest now => exact Or.inl (samePeers_handleClosedEvent order dest now)
  | connected publicAddr canal now answer =>
    have opened := samePeers_doHandshake self publicAddr canal now answer
    refine Or.inl ?_
    dsimp only [step]
    generalize self.doHandshake publicAddr canal now answer=result at opened ⊢
    obtain ⟨outcome,_,after⟩ := result
    cases outcome with
    | ok _ => exact opened
    | error _ =>
      have again := samePeers_tryStartConnection after publicAddr canal now
      exact ⟨again.1.trans opened.1,again.2.trans opened.2⟩
  | connect publicAddr canal now => exact Or.inl (samePeers_tryStartConnection _ _ _ _)
  | retry pubkey canal now => exact Or.inl (samePeers_tryStartConnectionForPeer _ _ _)
  | removePeer pubkey canal => exact Or.inr (Or.inl ⟨pubkey,canal,rfl⟩)

theorem crypto_removePeer {pubkey : ValidatorPublicKey} {canal : Canal} :
    (self.removePeer pubkey canal).crypto=self.crypto := by
  unfold removePeer
  split
  · rfl
  · split <;> rfl

theorem crypto_step : (self.step event).crypto=self.crypto := by
  obtain same|⟨pubkey,canal,eq⟩|⟨dest,h,answer,_,_,eq⟩ := step_cases self event
  · exact same.1
  · rw [eq]
    exact crypto_removePeer
  · rw [eq]
    exact crypto_handlePeerUpdate

theorem run_concat (events : List Event) :
    self.run (events++[event])=(self.run events).step event := by
  rw [run,List.foldl_append]
  rfl

theorem crypto_run (events : List Event) : (self.run events).crypto=self.crypto := by
  induction events using List.reverseRecOn with
  | nil => rfl
  | append_singleton events event ih =>
    rw [run_concat]
    exact crypto_step.trans ih

/-- A socket that an update leaves recorded was recorded before, or was set by it. -/
theorem getSocket_handlePeerUpdate {canal c : Canal} {v : SignedByValidator NodeConnectionData}
    {timestamp : TimestampMs} {dest : String} {pk : ValidatorPublicKey} {socket : PeerSocket}
    (h : (self.handlePeerUpdate canal v timestamp dest).2.getSocket c pk=some socket) :
    self.getSocket c pk=some socket ∨
      pk=v.signature.validator ∧ c=canal ∧ socket=⟨timestamp,dest⟩ := by
  have of_records : ∀ {set},Records self (self.handlePeerUpdate canal v timestamp dest).2
      v.signature.validator canal set → (pk=v.signature.validator ∧ c=canal ∧ socket=set) ∨
        self.getSocket c pk=some socket := by
    intro set records
    rw [records.2] at h
    split_ifs at h with here
    · exact Or.inl ⟨here.1,here.2,(Option.some.inj h).symm⟩
    · exact Or.inr h
  cases known : self.getSocket canal v.signature.validator with
  | none => exact (of_records (handlePeerUpdate_of_none timestamp dest known).1).symm
  | some old =>
    obtain ⟨replaced,kept⟩ :=
      handlePeerUpdate_of_some timestamp dest known
    by_cases yields : self.Yields v.signature.validator old timestamp
    · exact (of_records (replaced yields).1).symm
    · obtain ⟨rfl,rfl,rfl⟩|before := of_records (kept yields).1
      · exact Or.inl known
      · exact Or.inl before

/-- What holds of a verification that returns, of its signer and of the times. -/
theorem authentic_of_sound {crypto : BlstCrypto PublicKey BlstSignature} {h : Handshake}
    {dest : String} {answer : Except String Unit} (hu : crypto.Unforgeable signed)
    (hs : Sound signed chosen crypto (.handshake dest h answer))
    (hv : ∃ valid,crypto.verifySigned h.v=.ok valid) : Authentic signed chosen crypto h := by
  obtain ⟨valid,verified⟩ := hv
  obtain ⟨returns,sent⟩ := hs
  cases valid with
  | false => exact absurd verified returns
  | true =>
    obtain ⟨encoded,written,made⟩ := hu.signed_of_verifySigned verified
    exact ⟨verified,⟨encoded,written,made⟩,sent encoded written made⟩

theorem socketsAuthentic (hu : self.crypto.Unforgeable signed) (hp : self.peers=∅)
    (events : List Event) (hs : ∀ event ∈ events,Sound signed chosen self.crypto event) :
    self.SocketsAuthentic signed chosen events := by
  induction events using List.reverseRecOn with
  | nil =>
    intro pk c socket found
    simp [run,getSocket,hp] at found
  | append_singleton events event ih =>
    have earlier := ih fun e he => hs e (List.mem_append_left _ he)
    intro pk c socket found
    have recorded : (self.run events).getSocket c pk=some socket → ∃ h answer,
        .handshake socket.socketAddr h answer∈events++[event] ∧ h.v.signature.validator=pk ∧
          h.canal=c ∧ h.timestamp=socket.timestamp ∧ Authentic signed chosen self.crypto h := by
      intro before
      obtain ⟨h,answer,listed,rest⟩ := earlier pk c socket before
      exact ⟨h,answer,List.mem_append_left _ listed,rest⟩
    rw [run_concat] at found
    obtain same|⟨pubkey,canal,eq⟩|⟨dest,h,answer,rfl,verified,eq⟩ :=
      step_cases (self.run events) event
    · apply recorded
      rw [getSocket,← same.2]
      exact found
    · rw [eq] at found
      exact recorded (getSocket_removePeer found)
    · rw [eq] at found
      obtain before|⟨rfl,rfl,rfl⟩ := getSocket_handlePeerUpdate found
      · exact recorded before
      · have last := List.mem_append_right events (List.mem_cons_self (a := Event.handshake dest h answer) (l := []))
        rw [crypto_run] at verified
        exact ⟨h,answer,last,rfl,rfl,rfl,authentic_of_sound hu (hs _ last) verified⟩

theorem not_mem_erase {sockets : Std.ExtTreeSet String} {addr other : String}
    (h : addr∈sockets) (gone : addr∉sockets.erase other) : addr=other := by
  rw [Std.ExtTreeSet.mem_erase] at gone
  by_contra differs
  exact gone ⟨fun same => differs (Std.LawfulEqOrd.eq_of_compare same).symm,h⟩

/-- An update drops the stream that it came on, or the recorded one. -/
theorem sockets_handlePeerUpdate {canal : Canal} {v : SignedByValidator NodeConnectionData}
    {timestamp : TimestampMs} {dest addr : String} (open_ : addr∈self.sockets)
    (gone : addr∉(self.handlePeerUpdate canal v timestamp dest).2.sockets) : addr=dest ∨
      ∃ socket,socket.socketAddr=addr ∧ self.getSocket canal v.signature.validator=some socket := by
  cases known : self.getSocket canal v.signature.validator with
  | none =>
    rw [(handlePeerUpdate_of_none timestamp dest known).2] at gone
    exact absurd open_ gone
  | some old =>
    obtain ⟨replaced,kept⟩ := handlePeerUpdate_of_some timestamp dest known
    by_cases yields : self.Yields v.signature.validator old timestamp
    · rw [(replaced yields).2] at gone
      exact Or.inr ⟨old,(not_mem_erase open_ gone).symm,rfl⟩
    · rw [(kept yields).2] at gone
      exact Or.inl (not_mem_erase open_ gone)

theorem dropsAuthentic (hu : self.crypto.Unforgeable signed) (events : List Event)
    (hs : ∀ event ∈ events,Sound signed chosen self.crypto event) :
    self.DropsAuthentic signed chosen events := by
  rintro before dest h answer after rfl addr present gone
  have sound := hs (.handshake dest h answer)
    (List.mem_append_right before List.mem_cons_self)
  obtain same|⟨verified,eq⟩ := handleHandshake_cases (self.run before) dest answer h
  · rw [step,same] at gone
    exact absurd present gone
  · rw [step,eq] at gone
    rw [crypto_run] at verified
    obtain own|recorded := sockets_handlePeerUpdate present gone
    · exact Or.inl own
    · exact Or.inr ⟨authentic_of_sound hu sound verified,recorded⟩

/-- If no handshake has an invalid signature or signed data with another canal or time than its
signer sent them with, each socket of a peer was set by the peer, and no handshake of another
one makes the server drop it. -/
theorem peersAuthentic (self : P2PServer PublicKey BlstSignature)
    (signed : ValidatorPublicKey → Bytes → Prop)
    (chosen : ValidatorPublicKey → Canal → NodeConnectionData → TimestampMs → Prop)
    (hu : self.crypto.Unforgeable signed) (hp : self.peers=∅) (events : List Event)
    (hs : ∀ event ∈ events,Sound signed chosen self.crypto event) :
    self.SocketsAuthentic signed chosen events ∧ self.DropsAuthentic signed chosen events :=
  ⟨socketsAuthentic hu hp events hs,dropsAuthentic hu events hs⟩

def peerData : NodeConnectionData := ⟨1,"peer",0,"peer:4141","peer:4142"⟩

/-- The bytes that the second validator signs, if it does. -/
def signedBySecond (signs : Bool) (v : UInt8) (encoded : Bytes) : Bool :=
  signs && v=2 && Borsh.ser peerData=some encoded

def server (signs : Bool) : P2PServer Bytes Bytes where
  crypto := { Blst.ofVoters (signedBySecond signs) with signBytes := id, validatorPubkey := [1] }
  nodeId := "node"
  connecting := ∅
  nodeP2pPublicAddress := "node:4141"
  nodeDaPublicAddress := "node:4142"
  currentHeight := 0
  sockets := ∅
  peers := ∅

/-- A stream is accepted, and a handshake in the name of the second validator comes on it. -/
def greeting : List Event :=
  [.accepted "10.0.0.3:50000",.handshake "10.0.0.3:50000"
    (.hello "p2p" ⟨peerData,⟨(Borsh.ser peerData).getD [],[2]⟩⟩ 5) (.ok ())]

theorem peersAuthentic_greeting :
    ((server true).run greeting).getSocket "p2p" [2]=some ⟨5,"10.0.0.3:50000"⟩ ∧
      (server true).SocketsAuthentic (fun key encoded => key.all (signedBySecond true · encoded))
        (fun _ canal _ timestamp => canal="p2p" ∧ timestamp=5) greeting ∧
      (server true).DropsAuthentic (fun key encoded => key.all (signedBySecond true · encoded))
        (fun _ canal _ timestamp => canal="p2p" ∧ timestamp=5) greeting := by
  refine ⟨by decide +kernel,?_⟩
  apply peersAuthentic
  · exact Blst.ofVoters_unforgeable (signedBySecond true)
  · rfl
  · intro event he
    obtain rfl|rfl : event=_ ∨ event=_ := by simpa [greeting] using he
    · trivial
    · exact ⟨by decide +kernel,fun _ _ _ => ⟨rfl,rfl⟩⟩

/-- Nobody has signed anything, and the server records a stream to the second validator. -/
theorem not_socketsAuthentic :
    (server false).crypto.Unforgeable (fun _ _ => False) ∧
      ¬(server false).SocketsAuthentic (fun _ _ => False) (fun _ _ _ _ => True) greeting := by
  constructor
  · intro v pk sig encoded _ verified
    cases pk with
    | nil => simp [server,Blst.ofVoters] at verified
    | cons b rest => simp [server,Blst.ofVoters,signedBySecond] at verified
  · intro authentic
    have recorded : ((server false).run greeting).getSocket "p2p" [2]=
        some ⟨5,"10.0.0.3:50000"⟩ := by
      decide +kernel
    obtain ⟨h,_,_,_,_,_,proof⟩ := authentic [2] "p2p" _ recorded
    obtain ⟨_,_,made⟩ := proof.signed
    exact made

end TruthSeeker.P2p.P2PServer
