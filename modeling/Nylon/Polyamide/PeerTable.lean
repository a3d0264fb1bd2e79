import Nylon.Polyamide.FakeTCP
import Nylon.State.Config

/-!
The peers of the WireGuard device (`polyamide/device/device.go` and `peer.go`).
The device has at most one peer for a public key. A peer is an object: removing
it and adding a peer for the same key again gives a different one, and whoever
still holds the first has a peer that is stopped.
-/

namespace Nylon.Polyamide

open Lib State

/-- `id` is the identity of the object. -/
structure DevicePeer where
  id : Nat
  preferRoaming : Bool
  endpoints : List AddrPort
  deriving DecidableEq, Repr

def maxPeers : Nat := 65536

/-- `created` counts the peers made so far, so it is not the identity of any. A
closed device has no peers. -/
structure PeerTable where
  keyMap : Table NyPublicKey DevicePeer
  closed : Bool
  created : Nat
  old : ∀ key peer, keyMap.lookup key = some peer → peer.id < created
  stopped : closed = true → ∀ key, keyMap.lookup key = none

namespace PeerTable

def empty : PeerTable := ⟨∅, false, 0, by simp, by simp⟩

def lookupPeer (peers : PeerTable) (pk : NyPublicKey) : Option DevicePeer :=
  peers.keyMap.lookup pk

def peerId (peers : PeerTable) (pk : NyPublicKey) : Option Nat :=
  (peers.lookupPeer pk).map (·.id)

/-- Whether the peer for a key prefers the endpoint it roams to. -/
def roams (peers : PeerTable) (pk : NyPublicKey) : Option Bool :=
  (peers.lookupPeer pk).map (·.preferRoaming)

def newPeer (peers : PeerTable) (pk : NyPublicKey) : Except String PeerTable :=
  if hclosed : peers.closed then .error "device closed"
  else if maxPeers ≤ peers.keyMap.keys.length then .error "too many peers"
  else if (peers.keyMap.lookup pk).isSome then .error "adding existing peer"
  else .ok
    { peers with
      keyMap := peers.keyMap.insert pk ⟨peers.created, false, []⟩
      created := peers.created + 1
      old := by
        intro key peer hpeer
        rw [Table.lookup_insert_eq] at hpeer
        split at hpeer
        · cases hpeer
          exact Nat.lt_succ_self _
        · exact (peers.old key peer hpeer).trans (Nat.lt_succ_self _)
      stopped := fun h => absurd h hclosed }

def removePeer (peers : PeerTable) (pk : NyPublicKey) : PeerTable where
  keyMap := peers.keyMap.erase pk
  closed := peers.closed
  created := peers.created
  old := by
    intro key peer hpeer
    rw [Table.lookup_erase_eq] at hpeer
    split at hpeer
    · cases hpeer
    · exact peers.old key peer hpeer
  stopped h key := by
    rw [Table.lookup_erase_eq]
    split
    · rfl
    · exact peers.stopped h key

/-- `Close`, which removes all peers. -/
def close (peers : PeerTable) : PeerTable where
  keyMap := ∅
  closed := true
  created := peers.created
  old := by simp
  stopped := by simp

/-- Changes the object for a key in place. -/
def modifyPeer (peers : PeerTable) (pk : NyPublicKey) (f : DevicePeer → DevicePeer) : PeerTable :=
  match hlookup : peers.keyMap.lookup pk with
  | none => peers
  | some found =>
    { peers with
      keyMap := peers.keyMap.insert pk {f found with id := found.id}
      old := by
        intro key peer hpeer
        rw [Table.lookup_insert_eq] at hpeer
        split at hpeer
        · cases hpeer
          exact peers.old pk found hlookup
        · exact peers.old key peer hpeer
      stopped := by
        intro h
        rw [peers.stopped h] at hlookup
        cases hlookup }

def setPreferRoaming (peers : PeerTable) (pk : NyPublicKey) (val : Bool) : PeerTable :=
  peers.modifyPeer pk fun peer => {peer with preferRoaming := val}

def setEndpoints (peers : PeerTable) (pk : NyPublicKey) (eps : List AddrPort) : PeerTable :=
  peers.modifyPeer pk fun peer => {peer with endpoints := eps}

theorem peerId_of_closed {peers : PeerTable} (h : peers.closed = true) (key : NyPublicKey) :
    peers.peerId key = none := by
  simp [peerId, lookupPeer, peers.stopped h]

theorem mem_keys_of_peerId {peers : PeerTable} {key : NyPublicKey}
    (h : (peers.peerId key).isSome) : key ∈ peers.keyMap.keys := by
  rw [peerId, Option.isSome_map, lookupPeer, AList.lookup_isSome] at h
  exact AList.mem_keys.mpr h

theorem lookupPeer_removePeer (peers : PeerTable) (pk key : NyPublicKey) :
    (peers.removePeer pk).lookupPeer key = if key = pk then none else peers.lookupPeer key :=
  Table.lookup_erase_eq _ _ _

theorem lookupPeer_newPeer {peers peers' : PeerTable} {pk : NyPublicKey}
    (h : peers.newPeer pk = .ok peers') :
    peers'.closed = peers.closed ∧ ∀ key, peers'.lookupPeer key =
      if key = pk then some ⟨peers.created, false, []⟩ else peers.lookupPeer key := by
  unfold newPeer at h
  split_ifs at h
  cases h
  exact ⟨rfl, fun key => Table.lookup_insert_eq _ _ _ _⟩

@[simp] theorem closed_modifyPeer (peers : PeerTable) (pk : NyPublicKey)
    (f : DevicePeer → DevicePeer) : (peers.modifyPeer pk f).closed = peers.closed := by
  unfold modifyPeer
  split <;> rfl

theorem lookupPeer_modifyPeer (peers : PeerTable) (pk key : NyPublicKey)
    (f : DevicePeer → DevicePeer) :
    (peers.modifyPeer pk f).lookupPeer key =
      if key = pk then (peers.lookupPeer pk).map fun found => {f found with id := found.id}
      else peers.lookupPeer key := by
  unfold modifyPeer lookupPeer
  split
  · next hnone =>
    split
    · next heq => rw [heq, hnone]; rfl
    · rfl
  · next found hlookup =>
    dsimp only
    rw [Table.lookup_insert_eq, hlookup]
    rfl

@[simp] theorem peerId_modifyPeer (peers : PeerTable) (pk key : NyPublicKey)
    (f : DevicePeer → DevicePeer) : (peers.modifyPeer pk f).peerId key = peers.peerId key := by
  unfold peerId
  rw [lookupPeer_modifyPeer]
  split
  · next heq => rw [heq, Option.map_map]; rfl
  · rfl

theorem roams_modifyPeer (peers : PeerTable) (pk key : NyPublicKey) (f : DevicePeer → DevicePeer) :
    (peers.modifyPeer pk f).roams key =
      if key = pk then (peers.lookupPeer pk).map fun found => (f found).preferRoaming
      else peers.roams key := by
  unfold roams
  rw [lookupPeer_modifyPeer]
  split
  · rw [Option.map_map]; rfl
  · rfl

@[simp] theorem roams_setEndpoints (peers : PeerTable) (pk key : NyPublicKey)
    (eps : List AddrPort) : (peers.setEndpoints pk eps).roams key = peers.roams key := by
  unfold setEndpoints
  rw [roams_modifyPeer]
  split
  · next heq => rw [heq]; rfl
  · rfl

@[simp] theorem peerId_setEndpoints (peers : PeerTable) (pk key : NyPublicKey)
    (eps : List AddrPort) : (peers.setEndpoints pk eps).peerId key = peers.peerId key :=
  peerId_modifyPeer peers pk key _

end PeerTable

end Nylon.Polyamide
