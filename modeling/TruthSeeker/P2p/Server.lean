import Std.Data.ExtTreeMap
import Std.Data.ExtTreeSet
import TruthSeeker.Consensus.SigningLog
import TruthSeeker.Crypto.Aggregation

namespace TruthSeeker

def NodeConnectionData.layout :
    Borsh.Layout NodeConnectionData (UInt16 × String × UInt64 × String × String) where
  fields d := (d.version,d.name,d.currentHeight,d.p2pPublicAddress,d.daPublicAddress)
  make := fun (version,name,currentHeight,p2pPublicAddress,daPublicAddress) =>
    ⟨version,name,currentHeight,p2pPublicAddress,daPublicAddress⟩
  make_fields _ := rfl

instance : Borsh NodeConnectionData := NodeConnectionData.layout.borsh

namespace P2p

abbrev Canal := String

/-- The stream to a peer, by its address in the TCP server, with the time of the last handshake. -/
structure PeerSocket where
  timestamp : TimestampMs
  socketAddr : String
  deriving DecidableEq

structure PeerInfo where
  canals : Std.ExtTreeMap Canal PeerSocket
  nodeConnectionData : NodeConnectionData

/-- The data of the peer are signed, the canal and the time beside them are not. -/
inductive Handshake where
  | hello (canal : Canal) (v : SignedByValidator NodeConnectionData) (timestamp : TimestampMs)
  | verack (canal : Canal) (v : SignedByValidator NodeConnectionData) (timestamp : TimestampMs)
  deriving DecidableEq

namespace Handshake

def canal : Handshake → Canal
  | hello canal _ _ => canal
  | verack canal _ _ => canal

def v : Handshake → SignedByValidator NodeConnectionData
  | hello _ v _ => v
  | verack _ v _ => v

def timestamp : Handshake → TimestampMs
  | hello _ _ timestamp => timestamp
  | verack _ _ timestamp => timestamp

end Handshake

inductive HandshakeOngoing where
  | tcpClientStartedAt (time : TimestampMs)
  | handshakeStartedAt (addr : String) (time : TimestampMs)

def connectingCmp : String × Canal → String × Canal → Ordering :=
  compareLex (compareOn Prod.fst) (compareOn Prod.snd)

instance : Std.TransCmp connectingCmp := inferInstanceAs (Std.TransCmp (compareLex _ _))

structure NewPeer where
  name : String
  pubkey : ValidatorPublicKey
  height : UInt64
  daAddress : String

/-- The part of the server that handshakes read and change. Of the TCP server it has the addresses
of the open streams. -/
structure P2PServer (PublicKey BlstSignature : Type) where
  crypto : BlstCrypto PublicKey BlstSignature
  nodeId : String
  connecting : Std.ExtTreeMap (String × Canal) HandshakeOngoing connectingCmp
  nodeP2pPublicAddress : String
  nodeDaPublicAddress : String
  currentHeight : UInt64
  sockets : Std.ExtTreeSet String
  peers : Std.ExtTreeMap ValidatorPublicKey PeerInfo

namespace P2PServer
variable {PublicKey BlstSignature : Type}

section Code
variable (self : P2PServer PublicKey BlstSignature)

def getSocket (canal : Canal) (vid : ValidatorPublicKey) : Option PeerSocket :=
  self.peers[vid]?.bind fun p => p.canals[canal]?

def dropPeerStream (addr : String) : P2PServer PublicKey BlstSignature :=
  { self with sockets := self.sockets.erase addr }

/-- Sending to an open stream, with what the stream itself answers. -/
def send (dest : String) (answer : Except String Unit) : Except String Unit :=
  if self.sockets.contains dest then answer else .error s!"Retrieving client {dest}"

def createSignedNodeConnectionData : Outcome (SignedByValidator NodeConnectionData) :=
  self.crypto.sign
    ⟨1,self.nodeId,self.currentHeight,self.nodeP2pPublicAddress,self.nodeDaPublicAddress⟩

def newPeer (v : SignedByValidator NodeConnectionData) : NewPeer :=
  ⟨v.msg.name,v.signature.validator,v.msg.currentHeight,v.msg.daPublicAddress⟩

def handlePeerUpdate (canal : Canal) (v : SignedByValidator NodeConnectionData)
    (timestamp : TimestampMs) (dest : String) :
    Option NewPeer × P2PServer PublicKey BlstSignature :=
  let peerPubkey := v.signature.validator
  let localPubkey := self.crypto.validatorPubkey
  let self := { self with connecting := self.connecting.erase (v.msg.p2pPublicAddress,canal) }
  match self.peers[peerPubkey]? with
  | some info =>
      let updated := { info with canals := info.canals.insert canal ⟨timestamp,dest⟩ }
      let update := { self with peers := self.peers.insert peerPubkey updated }
      match info.canals[canal]? with
      | some peerSocket =>
          if peerSocket.timestamp<timestamp ∨
              peerSocket.timestamp=timestamp ∧ compare localPubkey peerPubkey=.lt then
            (none,update.dropPeerStream peerSocket.socketAddr)
          else (none,self.dropPeerStream dest)
      | none => (some (newPeer v),update)
  | none =>
      let info := ⟨(∅ : Std.ExtTreeMap Canal PeerSocket).insert canal ⟨timestamp,dest⟩,v.msg⟩
      (some (newPeer v),{ self with peers := self.peers.insert peerPubkey info })

/-- The result, the answer that was sent and the new state. Of the verification only an error is
looked at. -/
def handleHandshake (dest : String) (answer : Except String Unit) :
    Handshake → Outcome (Option NewPeer) × List (String × Handshake) ×
      P2PServer PublicKey BlstSignature
  | .hello canal v timestamp =>
      match self.crypto.verifySigned v with
      | .error _ => (.error (.err "Error verifying Hello message"),[],self)
      | .ok _ =>
          match self.createSignedNodeConnectionData with
          | .error _ => (.error (.err "Error creating signed node connection data"),[],self)
          | .ok verack =>
              match self.send dest answer with
              | .error e =>
                  (.error (.err s!"Error sending Verack message to {dest}: {e}"),[],self)
              | .ok _ =>
                  let (event,self) := self.handlePeerUpdate canal v timestamp dest
                  (.ok event,[(dest,.verack canal verack timestamp)],self)
  | .verack canal v timestamp =>
      match self.crypto.verifySigned v with
      | .error _ => (.error (.err "Error verifying Verack message"),[],self)
      | .ok _ =>
          let (event,self) := self.handlePeerUpdate canal v timestamp dest
          (.ok event,[],self)

def removePeer (peerPubkey : ValidatorPublicKey) (canal : Canal) :
    P2PServer PublicKey BlstSignature :=
  match self.peers[peerPubkey]? with
  | none => self
  | some info =>
      match info.canals[canal]? with
      | none => self
      | some removed =>
          { self with
            peers := self.peers.insert peerPubkey
              { info with canals := info.canals.erase canal } }.dropPeerStream removed.socketAddr

def startConnectionTask (peerAddress : String) (canal : Canal) (now : TimestampMs) :
    P2PServer PublicKey BlstSignature :=
  { self with connecting := self.connecting.insert (peerAddress,canal) (.tcpClientStartedAt now) }

/-- The milliseconds between two times. -/
def since (now last : TimestampMs) : Nat := ((now-last).setWidth 64).toNat

def tryStartConnection (peerAddress : String) (canal : Canal) (now : TimestampMs) :
    P2PServer PublicKey BlstSignature :=
  if peerAddress=self.nodeP2pPublicAddress then self
  else
    match self.connecting[(peerAddress,canal)]? with
    | some (.tcpClientStartedAt last) =>
        if since now last<3000 then self else self.startConnectionTask peerAddress canal now
    | some (.handshakeStartedAt addr last) =>
        if since now last<3000 then self
        else (self.dropPeerStream addr).startConnectionTask peerAddress canal now
    | none => self.startConnectionTask peerAddress canal now

def tryStartConnectionForPeer (pubkey : ValidatorPublicKey) (canal : Canal)
    (now : TimestampMs) : P2PServer PublicKey BlstSignature :=
  match self.peers[pubkey]? with
  | none => self
  | some peer => self.tryStartConnection peer.nodeConnectionData.p2pPublicAddress canal now

/-- The name of the own stream to a peer. -/
def clientAddr (publicAddr : String) (canal : Canal) : String := s!"{publicAddr}/{canal}"

def doHandshake (publicAddr : String) (canal : Canal) (now : TimestampMs)
    (answer : Except String Unit) :
    Outcome Unit × List (String × Handshake) × P2PServer PublicKey BlstSignature :=
  match self.createSignedNodeConnectionData with
  | .error e => (.error e,[],self)
  | .ok signed =>
      let addr := clientAddr publicAddr canal
      let self := { self with
        connecting := self.connecting.insert (publicAddr,canal) (.handshakeStartedAt addr now)
        sockets := self.sockets.insert addr }
      match self.send addr answer with
      | .error e => (.error (.err e),[],self)
      | .ok _ => (.ok (),[(addr,.hello canal signed now)],self)

/-- The canals and peers whose stream has the address, looked for in some order. -/
def getPeerBySocketAddr (order : List (ValidatorPublicKey × Canal)) (dest : String) :
    Option (PeerInfo × Canal) :=
  (order.find? fun p => (self.getSocket p.2 p.1).map PeerSocket.socketAddr=some dest).bind
    fun p => self.peers[p.1]?.map fun info => (info,p.2)

def handleClosedEvent (order : List (ValidatorPublicKey × Canal)) (dest : String)
    (now : TimestampMs) : P2PServer PublicKey BlstSignature :=
  let self := self.dropPeerStream dest
  match self.getPeerBySocketAddr order dest with
  | none => self
  | some (info,canal) =>
      self.startConnectionTask info.nodeConnectionData.p2pPublicAddress canal now

end Code

/-- What the server is given, with the time and the answers of the streams. A stream is lost by an
error or by being closed; a retry follows a ping or a message that could not be sent; a connection
is also tried again after it could not be opened. -/
inductive Event where
  | accepted (socketAddr : String)
  | handshake (dest : String) (handshake : Handshake) (answer : Except String Unit)
  | lost (order : List (ValidatorPublicKey × Canal)) (dest : String) (now : TimestampMs)
  | connected (publicAddr : String) (canal : Canal) (now : TimestampMs)
      (answer : Except String Unit)
  | connect (publicAddr : String) (canal : Canal) (now : TimestampMs)
  | retry (pubkey : ValidatorPublicKey) (canal : Canal) (now : TimestampMs)
  | removePeer (pubkey : ValidatorPublicKey) (canal : Canal)

def step (self : P2PServer PublicKey BlstSignature) :
    Event → P2PServer PublicKey BlstSignature
  | .accepted socketAddr => { self with sockets := self.sockets.insert socketAddr }
  | .handshake dest handshake answer => (self.handleHandshake dest answer handshake).2.2
  | .lost order dest now => self.handleClosedEvent order dest now
  | .connected publicAddr canal now answer =>
      match self.doHandshake publicAddr canal now answer with
      | (.ok _,_,self) => self
      | (.error _,_,self) => self.tryStartConnection publicAddr canal now
  | .connect publicAddr canal now => self.tryStartConnection publicAddr canal now
  | .retry pubkey canal now => self.tryStartConnectionForPeer pubkey canal now
  | .removePeer pubkey canal => self.removePeer pubkey canal

def run (self : P2PServer PublicKey BlstSignature) (events : List Event) :
    P2PServer PublicKey BlstSignature :=
  events.foldl step self

variable {self : P2PServer PublicKey BlstSignature} {canal : Canal} {dest : String}
  {v : SignedByValidator NodeConnectionData} {timestamp : TimestampMs}

section Update

/-- The recorded stream gives way to a newer one, and in case of a tie to any other one at the
peer with the smaller key. -/
def Yields (self : P2PServer PublicKey BlstSignature) (peer : ValidatorPublicKey)
    (old : PeerSocket) (timestamp : TimestampMs) : Prop :=
  old.timestamp<timestamp ∨
    old.timestamp=timestamp ∧ compare self.crypto.validatorPubkey peer=.lt

theorem getSocket_of_peer {peer : ValidatorPublicKey} {info : PeerInfo} {c : Canal}
    (hp : self.peers[peer]?=some info) : self.getSocket c peer=info.canals[c]? := by
  rw [getSocket,hp]
  rfl

theorem getSocket_insert (self : P2PServer PublicKey BlstSignature)
    {peer other : ValidatorPublicKey} {info : PeerInfo} {c : Canal} {after : P2PServer PublicKey BlstSignature}
    (ha : after.peers=self.peers.insert peer info) : after.getSocket c other=
      if other=peer then info.canals[c]? else self.getSocket c other := by
  unfold getSocket
  rw [ha,Std.ExtTreeMap.getElem?_insert]
  by_cases same : other=peer
  · rw [if_pos (Std.LawfulEqOrd.compare_eq_iff_eq.mpr same.symm),if_pos same]
    rfl
  · have differs : compare peer other≠.eq := fun h => same (Std.LawfulEqOrd.eq_of_compare h).symm
    rw [if_neg differs,if_neg same]

theorem getElem?_insert_canal {canals : Std.ExtTreeMap Canal PeerSocket} {socket : PeerSocket}
    {c : Canal} : (canals.insert canal socket)[c]?=if c=canal then some socket else canals[c]? := by
  rw [Std.ExtTreeMap.getElem?_insert]
  by_cases same : c=canal
  · rw [if_pos (Std.LawfulEqOrd.compare_eq_iff_eq.mpr same.symm),if_pos same]
  · have differs : compare canal c≠.eq := fun h => same (Std.LawfulEqOrd.eq_of_compare h).symm
    rw [if_neg differs,if_neg same]

/-- The socket of a peer on a canal is recorded, and everything else is as before. -/
def Records (self after : P2PServer PublicKey BlstSignature) (peer : ValidatorPublicKey)
    (canal : Canal) (socket : PeerSocket) : Prop :=
  after.crypto=self.crypto ∧ ∀ c pk,after.getSocket c pk=
    if pk=peer ∧ c=canal then some socket else self.getSocket c pk

theorem records_insert {peer : ValidatorPublicKey} {info : PeerInfo} {socket : PeerSocket}
    {after : P2PServer PublicKey BlstSignature} (hc : after.crypto=self.crypto)
    (hs : ∀ c,self.getSocket c peer=info.canals[c]?)
    (ha : after.peers=
      self.peers.insert peer { info with canals := info.canals.insert canal socket }) :
    Records self after peer canal socket := by
  refine ⟨hc,fun c pk => ?_⟩
  rw [getSocket_insert self ha]
  dsimp only
  rw [getElem?_insert_canal]
  by_cases same : pk=peer
  · subst same
    by_cases here : c=canal
    · rw [if_pos rfl,if_pos here,if_pos ⟨rfl,here⟩]
    · rw [if_pos rfl,if_neg here,if_neg (fun both => here both.2),hs]
  · rw [if_neg same,if_neg (fun both => same both.1)]

/-- A stream on a canal of which none is recorded. -/
theorem handlePeerUpdate_of_none (timestamp : TimestampMs) (dest : String)
    (h : self.getSocket canal v.signature.validator=none) :
    Records self (self.handlePeerUpdate canal v timestamp dest).2 v.signature.validator canal
        ⟨timestamp,dest⟩ ∧
      (self.handlePeerUpdate canal v timestamp dest).2.sockets=self.sockets := by
  unfold handlePeerUpdate
  dsimp only
  cases hp : self.peers[v.signature.validator]? with
  | some info =>
    have absent : info.canals[canal]?=none := by
      rw [← getSocket_of_peer hp]
      exact h
    simp only [absent]
    exact ⟨records_insert rfl (fun c => getSocket_of_peer hp) rfl,trivial⟩
  | none =>
    have empty : ∀ c,self.getSocket c v.signature.validator=
        (⟨∅,v.msg⟩ : PeerInfo).canals[c]? := by
      intro c
      rw [getSocket,hp]
      simp
    exact ⟨records_insert rfl empty rfl,rfl⟩

/-- A stream on a canal of which another one is recorded: one of the two is kept. -/
theorem handlePeerUpdate_of_some {old : PeerSocket} (timestamp : TimestampMs) (dest : String)
    (h : self.getSocket canal v.signature.validator=some old) :
    (self.Yields v.signature.validator old timestamp →
      Records self (self.handlePeerUpdate canal v timestamp dest).2 v.signature.validator canal
          ⟨timestamp,dest⟩ ∧
        (self.handlePeerUpdate canal v timestamp dest).2.sockets=
          self.sockets.erase old.socketAddr) ∧
    (¬self.Yields v.signature.validator old timestamp →
      Records self (self.handlePeerUpdate canal v timestamp dest).2 v.signature.validator canal
          old ∧
        (self.handlePeerUpdate canal v timestamp dest).2.sockets=self.sockets.erase dest) := by
  obtain ⟨info,hp,hs⟩ := Option.bind_eq_some_iff.mp h
  unfold handlePeerUpdate Yields
  dsimp only
  rw [hp]
  simp only [hs]
  constructor
  · intro yields
    rw [if_pos yields]
    exact ⟨records_insert rfl (fun c => getSocket_of_peer hp) rfl,rfl⟩
  · intro keeps
    rw [if_neg keeps]
    refine ⟨⟨rfl,fun c pk => ?_⟩,rfl⟩
    by_cases here : pk=v.signature.validator ∧ c=canal
    · rw [if_pos here,here.1,here.2]
      exact h
    · rw [if_neg here]
      rfl

/-- A handshake either changes nothing or updates the peer in whose name its data are signed. -/
theorem handleHandshake_cases (self : P2PServer PublicKey BlstSignature) (dest : String)
    (answer : Except String Unit) (h : Handshake) :
    (self.handleHandshake dest answer h).2.2=self ∨
      (∃ valid,self.crypto.verifySigned h.v=.ok valid) ∧
        (self.handleHandshake dest answer h).2.2=
          (self.handlePeerUpdate h.canal h.v h.timestamp dest).2 := by
  cases h with
  | hello canal v timestamp =>
    dsimp only [handleHandshake,Handshake.v]
    cases self.crypto.verifySigned v with
    | error e => exact Or.inl rfl
    | ok valid =>
      dsimp only
      cases self.createSignedNodeConnectionData with
      | error e => exact Or.inl rfl
      | ok verack =>
        dsimp only
        cases self.send dest answer with
        | error e => exact Or.inl rfl
        | ok sent => exact Or.inr ⟨⟨valid,rfl⟩,rfl⟩
  | verack canal v timestamp =>
    dsimp only [handleHandshake,Handshake.v]
    cases self.crypto.verifySigned v with
    | error e => exact Or.inl rfl
    | ok valid => exact Or.inr ⟨⟨valid,rfl⟩,rfl⟩

end Update

section Kept

/-- Whose key the server has, and which peers it knows. -/
def SamePeers (self after : P2PServer PublicKey BlstSignature) : Prop :=
  after.crypto=self.crypto ∧ after.peers=self.peers

theorem samePeers_tryStartConnection (self : P2PServer PublicKey BlstSignature) (peerAddress : String) (canal : Canal)
    (now : TimestampMs) : SamePeers self (self.tryStartConnection peerAddress canal now) := by
  unfold tryStartConnection
  split
  · exact ⟨rfl,rfl⟩
  · split
    · split <;> exact ⟨rfl,rfl⟩
    · split <;> exact ⟨rfl,rfl⟩
    · exact ⟨rfl,rfl⟩

theorem samePeers_tryStartConnectionForPeer (pubkey : ValidatorPublicKey) (canal : Canal)
    (now : TimestampMs) : SamePeers self (self.tryStartConnectionForPeer pubkey canal now) := by
  unfold tryStartConnectionForPeer
  split
  · exact ⟨rfl,rfl⟩
  · exact samePeers_tryStartConnection _ _ _ _

theorem samePeers_doHandshake (self : P2PServer PublicKey BlstSignature) (publicAddr : String) (canal : Canal) (now : TimestampMs)
    (answer : Except String Unit) :
    SamePeers self (self.doHandshake publicAddr canal now answer).2.2 := by
  unfold doHandshake
  split
  · exact ⟨rfl,rfl⟩
  · dsimp only
    split <;> exact ⟨rfl,rfl⟩

theorem samePeers_handleClosedEvent (order : List (ValidatorPublicKey × Canal)) (dest : String)
    (now : TimestampMs) : SamePeers self (self.handleClosedEvent order dest now) := by
  unfold handleClosedEvent
  dsimp only
  split <;> exact ⟨rfl,rfl⟩

theorem getSocket_removePeer {pubkey pk : ValidatorPublicKey} {c : Canal} {socket : PeerSocket}
    (h : (self.removePeer pubkey canal).getSocket c pk=some socket) :
    self.getSocket c pk=some socket := by
  unfold removePeer at h
  split at h
  · exact h
  · next info hp =>
    split at h
    · exact h
    · rw [getSocket_insert self rfl] at h
      split_ifs at h with same
      · subst same
        dsimp only at h
        rw [Std.ExtTreeMap.getElem?_erase] at h
        split_ifs at h
        rw [getSocket_of_peer hp]
        exact h
      · exact h

end Kept

end P2PServer

end P2p

end TruthSeeker
