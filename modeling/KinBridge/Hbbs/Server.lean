import Mathlib.Data.Finset.Card
import Mathlib.Data.List.AList
import KinBridge.Store.PeerMap

/-!
# The state of `hbbs`

Everything a message handler of `rendezvous_server.rs` reads or writes: the peer map,
the process-wide tables (`IP_BLOCKER`, `IP_CHANGES`, `PUNCH_REQS`), the relay lists and
the rotation counter. A restart keeps the peer table and nothing else.
-/

namespace KinBridge

/-- `HashMap<K, V>`; the order of the entries is the order of iteration. -/
abbrev HashMap (κ ν : Type) := AList fun _ : κ => ν

/-- `HashMap::retain`, by a test on the values. -/
def HashMap.retain {ν : Type} (m : HashMap String ν) (keep : ν → Bool) : HashMap String ν :=
  ⟨m.entries.filter fun e => keep e.2, List.NodupKeys.sublist List.filter_sublist m.nodupKeys⟩

theorem HashMap.lookup_retain {ν : Type} {m : HashMap String ν} {keep : ν → Bool} {k : String} :
    (m.retain keep).lookup k = (m.lookup k).filter keep := by
  ext v
  rw [← Option.mem_def, AList.mem_lookup_iff, HashMap.retain, List.mem_filter,
    Option.filter_eq_some_iff, ← AList.mem_lookup_iff, Option.mem_def]

section InPlace

variable {κ ν : Type} [DecidableEq κ] {m : HashMap κ ν} {k : κ}

theorem kreplace_cons_self (k : κ) (v w : ν) (l : List (Sigma fun _ : κ => ν)) :
    List.kreplace k w (⟨k, v⟩ :: l) = ⟨k, w⟩ :: l := by
  unfold List.kreplace
  refine List.lookmap_cons_some (fun e : Sigma fun _ : κ => ν => _) l ?_
  exact if_pos rfl

theorem kreplace_cons_ne {e : Sigma fun _ : κ => ν} (hne : k ≠ e.1) (w : ν)
    (l : List (Sigma fun _ : κ => ν)) :
    List.kreplace k w (e :: l) = e :: List.kreplace k w l := by
  unfold List.kreplace
  refine List.lookmap_cons_none (fun e : Sigma fun _ : κ => ν => _) l ?_
  exact if_neg hne

theorem dlookup_kreplace (k k' : κ) (w : ν) (l : List (Sigma fun _ : κ => ν)) :
    (l.kreplace k w).dlookup k' = if k' = k then (l.dlookup k).map (fun _ => w)
      else l.dlookup k' := by
  induction l with
  | nil => split <;> rfl
  | cons e l ih =>
      obtain ⟨k₀, v⟩ := e
      by_cases hk : k = k₀
      · subst hk
        rw [kreplace_cons_self]
        by_cases hkk : k' = k
        · subst hkk
          simp
        · rw [if_neg hkk, List.dlookup_cons_ne _ _ hkk, List.dlookup_cons_ne _ _ hkk]
      · rw [kreplace_cons_ne hk]
        by_cases hkk : k' = k₀
        · subst hkk
          rw [if_neg (Ne.symm hk), List.dlookup_cons_eq, List.dlookup_cons_eq]
        · rw [List.dlookup_cons_ne _ _ hkk, ih, List.dlookup_cons_ne _ _ hk,
            List.dlookup_cons_ne _ _ hkk]

/-- A value written through `get_mut`: the entry stays where it is. -/
theorem HashMap.lookup_replace_self {v w : ν} (h : m.lookup k = some v) :
    (m.replace k w).lookup k = some w := by
  have hlist : m.entries.dlookup k = some v := h
  rw [AList.lookup, AList.replace, dlookup_kreplace, if_pos rfl, hlist, Option.map_some]

theorem HashMap.lookup_replace_ne {k' : κ} {w : ν} (hne : k' ≠ k) :
    (m.replace k w).lookup k' = m.lookup k' := by
  rw [AList.lookup, AList.replace, dlookup_kreplace, if_neg hne]
  rfl

end InPlace

/-- `sign::SecretKey`. -/
abbrev SecretKey := { b : Bytes // b.length = 64 }

/-- What `hbbs` calls outside this repository. -/
structure Ext extends AddrOps, InfoJson where
  /-- `IdPk { id, pk }.write_to_bytes().unwrap_or_default()`. -/
  idPkBytes : String → Bytes → Bytes
  /-- `sign::sign`. -/
  sign : Bytes → SecretKey → Bytes
  /-- `test_if_valid_server(host, …).is_ok()`, a name lookup. -/
  validServer : String → Bool

/-! ## An instance to run the model on -/

/-- Plain IPv4 for an IPv4-mapped address, everything else unchanged. -/
def plainV4 (a : SocketAddr) : SocketAddr :=
  match a.ip with
  | .v4 _ => a
  | .v6 ip =>
    match ip.toIpv4Mapped with
    | some v4 => ⟨.v4 v4, a.port⟩
    | none => a

/-- Big-endian. -/
def bytesOfU16 (x : UInt16) : Bytes := [UInt8.ofNat (x.toNat / 256), x.toUInt8]

def u16OfBytes (hi lo : UInt8) : UInt16 := UInt16.ofNat (hi.toNat * 256 + lo.toNat)

/-- Six bytes for IPv4 and eighteen for IPv6, of the plain form. -/
def bytesOfAddr (a : SocketAddr) : Bytes :=
  match (plainV4 a).ip with
  | .v4 ip => [ip.a, ip.b, ip.c, ip.d] ++ bytesOfU16 a.port
  | .v6 ip => ip.segments.flatMap bytesOfU16 ++ bytesOfU16 a.port

def addrOfBytes : Bytes → SocketAddr
  | [a, b, c, d, p, q] => ⟨.v4 ⟨a, b, c, d⟩, u16OfBytes p q⟩
  | [a, a', b, b', c, c', d, d', e, e', f, f', g, g', h, h', p, q] =>
    ⟨.v6 ⟨u16OfBytes a a', u16OfBytes b b', u16OfBytes c c', u16OfBytes d d', u16OfBytes e e',
      u16OfBytes f f', u16OfBytes g g', u16OfBytes h h'⟩, u16OfBytes p q⟩
  | _ => .unspecified

/-- The JSON of a `PeerInfo` whose text needs no escapes. -/
def infoText (i : PeerInfo) : String := "\x7b\"ip\":\"" ++ i.ip ++ "\"\x7d"

def infoOfText (s : String) : Option PeerInfo :=
  some ⟨String.ofList ((s.toList.drop 7).dropLast.dropLast)⟩

/-- An outside in which every name resolves and a signature is the message itself. -/
def Ext.sample : Ext where
  tryIntoV4 := plainV4
  encode := bytesOfAddr
  decode := addrOfBytes
  toStr := infoText
  fromStr := infoOfText
  idPkBytes id pk := id.toUTF8.toList ++ pk
  sign m _ := m
  validServer _ := true

theorem u16OfBytes_bytesOfU16 (x : UInt16) :
    u16OfBytes (UInt8.ofNat (x.toNat / 256)) x.toUInt8 = x := by
  have hlt : x.toNat < 65536 := x.toNat_lt
  have hval : (UInt8.ofNat (x.toNat / 256)).toNat * 256 + x.toUInt8.toNat = x.toNat := by
    simp only [UInt8.toNat_ofNat', UInt16.toNat_toUInt8]
    omega
  rw [u16OfBytes, hval, UInt16.ofNat_toNat]

theorem plainV4_port (a : SocketAddr) : (plainV4 a).port = a.port := by
  unfold plainV4
  split
  · rfl
  · split <;> rfl

theorem sample_decode (a : SocketAddr) :
    Ext.sample.decode (Ext.sample.encode a) = Ext.sample.tryIntoV4 a := by
  show addrOfBytes (bytesOfAddr a) = plainV4 a
  have hport := plainV4_port a
  unfold bytesOfAddr
  rw [← hport]
  generalize plainV4 a = b
  obtain ⟨ip, port⟩ := b
  cases ip with
  | v4 ip => simp [addrOfBytes, bytesOfU16, u16OfBytes_bytesOfU16]
  | v6 ip => simp [addrOfBytes, bytesOfU16, Ipv6Addr.segments, u16OfBytes_bytesOfU16]

theorem sample_tryIntoV4 (a : SocketAddr) :
    Ext.sample.tryIntoV4 (Ext.sample.tryIntoV4 a) = Ext.sample.tryIntoV4 a := by
  show plainV4 (plainV4 a) = plainV4 a
  obtain ⟨ip, port⟩ := a
  cases ip with
  | v4 ip => rfl
  | v6 ip =>
      cases hm : ip.toIpv4Mapped with
      | some v4 => simp [plainV4, hm]
      | none => simp [plainV4, hm]

/-- The plain form is the address itself, or the IPv4 address that an IPv6 one holds. -/
theorem sample_plain (a : SocketAddr) : Ext.sample.tryIntoV4 a = a ∨
    ∃ ip v4, a.ip = .v6 ip ∧ ip.toIpv4 = some v4 ∧ (Ext.sample.tryIntoV4 a).ip = .v4 v4 := by
  obtain ⟨ip, port⟩ := a
  cases ip with
  | v4 ip => exact .inl rfl
  | v6 ip =>
      cases hm : ip.toIpv4Mapped with
      | none => exact .inl (by simp [Ext.sample, plainV4, hm])
      | some v4 =>
          refine .inr ⟨ip, v4, rfl, ?_, by simp [Ext.sample, plainV4, hm]⟩
          simp only [Ipv6Addr.toIpv4Mapped, Option.ite_none_right_eq_some] at hm
          obtain ⟨hseg, hlow⟩ := hm
          simp only [List.cons.injEq, and_true] at hseg
          simp [Ipv6Addr.toIpv4, hseg, hlow]

theorem sample_json (i : PeerInfo) : Ext.sample.fromStr (Ext.sample.toStr i) = some i := by
  simp [Ext.sample, infoOfText, infoText]

/-! ## Constants -/

def IP_CHANGE_DUR : Nat := 180
def DAY_SECONDS : Nat := 3600 * 24
def IP_BLOCK_DUR : Nat := 60
def REG_TIMEOUT : Int := 30000
def PUNCH_REQ_DEDUPE_SEC : Nat := 60

/-- One entry of `IP_BLOCKER`: requests in the current minute, ids in the current day. -/
structure IpBlockEntry where
  counter : Nat × Instant
  ids : Finset String × Instant

structure PunchReqEntry where
  tm : Instant
  fromIp : String
  toIp : String
  toId : String
deriving DecidableEq, Repr

/-- `Inner`; the mask is its `contains`. -/
structure Inner where
  serial : Int
  version : String
  softwareUrl : String
  mask : Option (Ipv4Addr → Bool)
  localIp : String
  sk : Option SecretKey

structure Server where
  pm : PeerMap
  ipBlocker : HashMap String IpBlockEntry
  ipChanges : HashMap String (Instant × HashMap String Int)
  punchReqs : List PunchReqEntry
  relayServers : List String
  relayServers0 : List String
  /-- `ROTATION_RELAY_SERVER`, a `usize`. -/
  rotation : Nat
  alwaysUseRelay : Bool
  rendezvousServers : List String
  inner : Inner

/-- What the command line and the environment fix. -/
structure Config where
  inner : Inner
  relayServers : List String
  rendezvousServers : List String
  alwaysUseRelay : Bool

/-- A process that has just come up over a peer table. -/
def Server.start (cfg : Config) (db : Table) : Server where
  pm := ⟨fun _ => none, db⟩
  ipBlocker := ∅
  ipChanges := ∅
  punchReqs := []
  relayServers := cfg.relayServers
  relayServers0 := cfg.relayServers
  rotation := 0
  alwaysUseRelay := cfg.alwaysUseRelay
  rendezvousServers := cfg.rendezvousServers
  inner := cfg.inner

/-- What one handler call meets from outside, sends included. -/
structure Io extends DbIo where
  sendOk : SocketAddr → Bool

/-- A server without a LAN mask, with a signing key. -/
def Config.sample : Config where
  inner := ⟨0, "", "", none, "", some ⟨List.replicate 64 7, by decide⟩⟩
  relayServers := []
  rendezvousServers := []
  alwaysUseRelay := false

/-- Everything goes through at time `now`, and `n` is the guid drawn. -/
def Io.sample (now : Instant) (n : UInt8) : Io where
  now := now
  readOk := true
  writeOk := true
  guid := ⟨List.replicate 16 n, by rw [List.length_replicate]⟩
  sendOk _ := true

end KinBridge
