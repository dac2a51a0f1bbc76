import KinBridge.Net.Grammar
import KinBridge.Hbbs.Header

/-!
# Addresses in the proxy's header

The header's text becomes a socket address with port 0, in brackets if it has no dot. That is not
the same as being IPv6: an IPv6 address may end in an IPv4 one, and then its dots keep it out of
brackets and it is not read. And brackets admit more than an address: a scope id, or, if the
text brings brackets of its own, an address with dots after all.
-/

namespace KinBridge.Proof

open KinBridge Hbbr

variable {v : String} {cs : List Char}

/-! ## Texts -/

theorem readAll_eq_some {α : Type} {r : Reader α} {x : α} :
    readAll r v = some x ↔ r v.toList = some (x, []) := by
  unfold readAll
  split
  · rename_i y hy
    rw [hy]
    simp
  · rename_i hno
    exact iff_of_false nofun (hno x)

/-- `str::parse::<Ipv6Addr>`. -/
def parseIpv6Addr (s : String) : Option Ipv6Addr := readAll readIpv6 s

/-- The number behind a `%`. -/
def parseScopeId (s : String) : Option Nat := readAll (readNumber 10 none true (2 ^ 32)) s

/-- An IPv6 address with a scope id. -/
def Scoped (v : String) : Prop :=
  ∃ a n, v = a ++ "%" ++ n ∧ (parseIpv6Addr a).isSome ∧ (parseScopeId n).isSome

theorem skipScopeId_nil (h : skipScopeId cs = []) :
    cs = [] ∨ ∃ ds n, cs = '%' :: ds ∧ readNumber 10 none true (2 ^ 32) ds = some (n, []) := by
  unfold skipScopeId at h
  split at h
  · rename_i ds hpercent
    split at h
    · rename_i n _ hnumber
      subst h
      exact .inr ⟨ds, n, readChar_eq hpercent, hnumber⟩
    · exact .inl h
  · exact .inl h

/-- What is read between brackets. -/
theorem readsV6_iff : (∃ ip, ReadsV6 v.toList ip) ↔ (parseIpv6Addr v).isSome ∨ Scoped v := by
  have hstop : Stopper '%' := by decide
  constructor
  · rintro ⟨ip, rest, hread, hskip⟩
    -- what the address leaves is nothing, or a scope id to the end
    rcases skipScopeId_nil hskip with rfl | ⟨ds, n, rfl, hnumber⟩
    · exact .inl (Option.isSome_of_eq_some (readAll_eq_some.mpr hread))
    · obtain ⟨front, hv, hfront⟩ :=
        ((readIpv6_stops hstop).whole_iff readIpv6_leaves).mp hread
      refine .inr ⟨String.ofList front, String.ofList ds, ?_, ?_, ?_⟩
      · rw [← String.toList_inj]
        simpa using hv
      · exact Option.isSome_of_eq_some (readAll_eq_some.mpr (by rwa [String.toList_ofList]))
      · exact Option.isSome_of_eq_some (readAll_eq_some.mpr (by rwa [String.toList_ofList]))
  · rintro (hip | ⟨a, n, rfl, hip, hnumber⟩)
    · obtain ⟨ip, hip⟩ := Option.isSome_iff_exists.mp hip
      exact ⟨ip, [], readAll_eq_some.mp hip, rfl⟩
    · obtain ⟨ip, hip⟩ := Option.isSome_iff_exists.mp hip
      obtain ⟨k, hnumber⟩ := Option.isSome_iff_exists.mp hnumber
      refine ⟨ip, '%' :: n.toList, ?_, ?_⟩
      · refine ((readIpv6_stops hstop).whole_iff readIpv6_leaves).mpr ⟨a.toList, by simp, ?_⟩
        exact readAll_eq_some.mp hip
      · have hread := readAll_eq_some.mp hnumber
        unfold skipScopeId
        dsimp only [readChar]
        rw [if_pos rfl]
        dsimp only
        rw [hread]

/-! ## The callback -/

/-- The address in a value of the header, as both callbacks look for it. -/
def headerAddr (v : String) : Option SocketAddr :=
  if '.' ∈ v.toList then parseSocketAddr (v ++ ":0") else parseSocketAddr ("[" ++ v ++ "]:0")

theorem headerAddr_plain (hdot : '.' ∉ v.toList) {a : SocketAddr} :
    headerAddr v = some a ↔ ∃ ip, ReadsV6 v.toList ip ∧ a = ⟨.v6 ip, 0⟩ := by
  rw [headerAddr, if_neg hdot, parseSocketAddr, readAll_eq_some, ← readSocketAddr_bracket]
  simp

theorem headerAddr_dotted (hdot : '.' ∈ v.toList) {a : SocketAddr} :
    headerAddr v = some a ↔ (∃ ip, readIpv4 v.toList = some (ip, []) ∧ a = ⟨.v4 ip, 0⟩)
      ∨ ∃ w ip, v.toList = '[' :: (w ++ [']']) ∧ ReadsV6 w ip ∧ a = ⟨.v6 ip, 0⟩ := by
  rw [headerAddr, if_pos hdot, parseSocketAddr, readAll_eq_some, ← readSocketAddr_plain]
  simp

/-- Not an address, and taken for one: an IPv6 address with a scope id, or with dots and in
brackets. -/
inductive TakenAnyway (v : String) : Prop where
  | scoped : '.' ∉ v.toList → Scoped v → TakenAnyway v
  | bracketed {w : String} : v = "[" ++ w ++ "]" → '.' ∈ w.toList →
      ((parseIpv6Addr w).isSome ∨ Scoped w) → TakenAnyway v

/-- The value is an IPv4 address, or an IPv6 address without dots, or not taken for an address. -/
def WellRead (v : String) : Prop :=
  match parseIpAddr v with
  | some (.v4 _) => True
  | some (.v6 _) => '.' ∉ v.toList
  | none => ¬ TakenAnyway v

theorem parseIpAddr_v4 {ip : Ipv4Addr} :
    parseIpAddr v = some (.v4 ip) ↔ readIpv4 v.toList = some (ip, []) := by
  rw [parseIpAddr, readAll_eq_some, readIpAddr]
  cases readIpv4 v.toList with
  | none => simp
  | some x => obtain ⟨ip', rest⟩ := x; simp

theorem parseIpAddr_v6 {ip : Ipv6Addr} : parseIpAddr v = some (.v6 ip)
    ↔ readIpv4 v.toList = none ∧ readIpv6 v.toList = some (ip, []) := by
  rw [parseIpAddr, readAll_eq_some, readIpAddr]
  cases readIpv4 v.toList with
  | none => simp
  | some x => obtain ⟨ip', rest⟩ := x; simp

theorem headerAddr_v4 {ip : Ipv4Addr} (h : parseIpAddr v = some (.v4 ip)) :
    headerAddr v = some ⟨.v4 ip, 0⟩ := by
  have hread := parseIpAddr_v4.mp h
  exact (headerAddr_dotted (readIpv4_dot hread)).mpr (.inl ⟨ip, hread, rfl⟩)

/-- An IPv6 address is read exactly if it has no dots. -/
theorem headerAddr_v6 {ip : Ipv6Addr} (h : parseIpAddr v = some (.v6 ip)) :
    headerAddr v = some ⟨.v6 ip, 0⟩ ↔ '.' ∉ v.toList := by
  obtain ⟨hfour, hsix⟩ := parseIpAddr_v6.mp h
  constructor
  · intro hsome hdot
    rcases (headerAddr_dotted hdot).mp hsome with ⟨_, hread, _⟩ | ⟨w, _, hv, _⟩
    · rw [hfour] at hread
      cases hread
    · -- an address does not begin with a bracket
      rw [hv, readIpv6_stopped (by decide)] at hsix
      cases hsix
  · exact fun hdot => (headerAddr_plain hdot).mpr ⟨ip, ⟨[], hsix, rfl⟩, rfl⟩

theorem headerAddr_none (h : parseIpAddr v = none) : headerAddr v = none ↔ ¬ TakenAnyway v := by
  have hfour : ∀ ip, readIpv4 v.toList ≠ some (ip, []) := by
    intro ip hread
    rw [parseIpAddr_v4.mpr hread] at h
    cases h
  rw [← Option.not_isSome_iff_eq_none, not_iff_not, Option.isSome_iff_exists]
  constructor
  · rintro ⟨a, ha⟩
    by_cases hdot : '.' ∈ v.toList
    · rcases (headerAddr_dotted hdot).mp ha with ⟨ip, hread, _⟩ | ⟨w, ip, hv, hread, _⟩
      · exact absurd hread (hfour ip)
      · refine @TakenAnyway.bracketed v (String.ofList w) ?_ ?_ (readsV6_iff.mp ⟨ip, ?_⟩)
        · rw [← String.toList_inj]
          simpa using hv
        · rw [hv] at hdot
          simpa using hdot
        · rwa [String.toList_ofList]
    · obtain ⟨ip, hread, _⟩ := (headerAddr_plain hdot).mp ha
      rcases readsV6_iff.mp ⟨ip, hread⟩ with hsix | hscoped
      · -- without dots it is no IPv4 address, so it would be an address
        obtain ⟨ip', hsix⟩ := Option.isSome_iff_exists.mp hsix
        have hnone : readIpv4 v.toList = none := by
          cases hread4 : readIpv4 v.toList with
          | none => rfl
          | some x =>
              obtain ⟨ip4, tail⟩ := x
              exact absurd (readIpv4_dot hread4) hdot
        rw [parseIpAddr_v6.mpr ⟨hnone, readAll_eq_some.mp hsix⟩] at h
        cases h
      · exact .scoped hdot hscoped
  · rintro (⟨hdot, hscoped⟩ | ⟨rfl, hdot, hread⟩)
    · obtain ⟨ip, hread⟩ := readsV6_iff.mpr (.inr hscoped)
      exact ⟨_, (headerAddr_plain hdot).mpr ⟨ip, hread, rfl⟩⟩
    · rename_i w
      obtain ⟨ip, hread⟩ := readsV6_iff.mpr hread
      refine ⟨_, (headerAddr_dotted (by simp [hdot])).mpr (.inr ⟨w.toList, ip, ?_, hread, rfl⟩)⟩
      simp

/-- **A value is read as what it is** exactly if it is well read. -/
theorem headerAddr_iff (v : String) :
    headerAddr v = (parseIpAddr v).map (fun ip => ⟨ip, 0⟩) ↔ WellRead v := by
  unfold WellRead
  cases h : parseIpAddr v with
  | none => exact headerAddr_none h
  | some ip =>
      cases ip with
      | v4 ip => exact iff_of_true (headerAddr_v4 h) trivial
      | v6 ip => exact headerAddr_v6 h

/-! ## Both servers -/

/-- The address that the header stands for: its own, if it is one, else the one of the socket. -/
def proxied (addr : SocketAddr) (headers : WsHeaders) : SocketAddr :=
  match headers.realIp.bind parseIpAddr with
  | some ip => ⟨ip, 0⟩
  | none => addr

/-- Two addresses tell any two results of a reader apart. -/
theorem getD_congr_iff {o o' : Option SocketAddr} :
    (∀ addr, o.getD addr = o'.getD addr) ↔ o = o' := by
  have hother : ∀ a : SocketAddr, ∃ b, b ≠ a := by
    rintro ⟨ip, port⟩
    refine ⟨⟨ip, port + 1⟩, ?_⟩
    intro heq
    have hport : port + 1 = port := (SocketAddr.mk.inj heq).2
    simp at hport
  constructor
  · intro h
    cases o with
    | none =>
        cases o' with
        | none => rfl
        | some a =>
            obtain ⟨b, hne⟩ := hother a
            exact absurd (h b) hne
    | some a =>
        cases o' with
        | none =>
            obtain ⟨b, hne⟩ := hother a
            exact absurd (h b).symm hne
        | some a' => exact congrArg some (h a)
  · exact fun h _ => h ▸ rfl

theorem makePairAddr_header (addr : SocketAddr) (headers : WsHeaders) :
    makePairAddr addr (some headers) = (headers.realIp.bind headerAddr).getD addr := rfl

theorem proxied_header (addr : SocketAddr) (headers : WsHeaders) : proxied addr headers
    = (headers.realIp.bind fun v => (parseIpAddr v).map fun ip => ⟨ip, 0⟩).getD addr := by
  unfold proxied
  cases headers.realIp with
  | none => rfl
  | some v =>
      rw [Option.bind_some, Option.bind_some]
      cases parseIpAddr v <;> rfl

/--
**`hbbs` and `hbbr` take the same address**, and it is the one that the header stands for, on every
socket, exactly if the value of the header is well read.
-/
theorem proxy_header_iff (headers : WsHeaders) :
    (∀ addr, handleListenerAddr addr (some headers) = makePairAddr addr (some headers))
      ∧ ((∀ addr, makePairAddr addr (some headers) = proxied addr headers
          ∧ handleListenerAddr addr (some headers) = proxied addr headers)
        ↔ ∀ v, headers.realIp = some v → WellRead v) := by
  refine ⟨fun addr => handleListenerAddr_eq addr _, ?_⟩
  have hpair : (∀ addr, makePairAddr addr (some headers) = proxied addr headers
      ∧ handleListenerAddr addr (some headers) = proxied addr headers)
      ↔ ∀ addr, makePairAddr addr (some headers) = proxied addr headers :=
    forall_congr' fun addr => by rw [handleListenerAddr_eq, and_self]
  rw [hpair]
  simp only [makePairAddr_header, proxied_header]
  rw [getD_congr_iff]
  cases headers.realIp with
  | none => simp
  | some v =>
      rw [Option.bind_some, Option.bind_some, headerAddr_iff]
      simp

/-- `X-Real-IP` on a socket from a proxy on the same host. -/
def proxySocket : SocketAddr := ⟨.v4 ⟨127, 0, 0, 1⟩, 40000⟩

def xRealIp (v : String) : WsHeaders := ⟨some (some v), none⟩

/-- **An IPv4-mapped address is not read, and texts that are no addresses are.** -/
theorem proxy_header_misread :
    (parseIpAddr "::ffff:1.2.3.4" = some (.v6 ⟨0, 0, 0, 0, 0, 0xffff, 0x102, 0x304⟩)
        ∧ makePairAddr proxySocket (some (xRealIp "::ffff:1.2.3.4")) = proxySocket
        ∧ handleListenerAddr proxySocket (some (xRealIp "::ffff:1.2.3.4")) = proxySocket)
      ∧ (parseIpAddr "::1%3" = none
        ∧ makePairAddr proxySocket (some (xRealIp "::1%3")) = ⟨.v6 ⟨0, 0, 0, 0, 0, 0, 0, 1⟩, 0⟩)
      ∧ parseIpAddr "[::1.2.3.4]" = none
        ∧ makePairAddr proxySocket (some (xRealIp "[::1.2.3.4]"))
          = ⟨.v6 ⟨0, 0, 0, 0, 0, 0, 0x102, 0x304⟩, 0⟩ := by
  decide +kernel

end KinBridge.Proof
