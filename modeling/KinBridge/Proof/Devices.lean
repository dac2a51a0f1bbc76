import KinBridge.Api.Devices
import KinBridge.Proof.Sessions

/-!
# Which device a heartbeat counts for

The path names a device, and the body may name one, too. Both go into one object, and the body's
name goes in last; so it is the body's device that is recorded, whatever the path says, and
nothing compares the two. A session's id is compared, in `resolve`.
-/

namespace KinBridge.Proof

open KinBridge Api

variable {A : DeviceService} {r : HeartbeatRequest} {o : JsonObject} {id : String}
  {data : HeartbeatBody}

/-! ## The merged object -/

theorem heartbeatObject_device (h : "device_id" ∈ o) :
    (heartbeatObject id o).lookup "device_id" = o.lookup "device_id" :=
  AList.lookup_union_left h

theorem heartbeatObject_path (h : "device_id" ∉ o) :
    (heartbeatObject id o).lookup "device_id" = some (.str id) := by
  rw [heartbeatObject, AList.lookup_union_right h, ← AList.insert_empty, AList.lookup_insert]

theorem heartbeatObject_at : (heartbeatObject id o).lookup "at" = o.lookup "at" := by
  by_cases h : "at" ∈ o
  · exact AList.lookup_union_left h
  · rw [heartbeatObject, AList.lookup_union_right h, ← AList.insert_empty,
      AList.lookup_insert_ne (by decide), AList.lookup_empty, AList.lookup_eq_none.mpr h]

theorem keys_all_iff {p : String → Bool} : o.keys.all p = true ↔ ∀ k ∈ o, p k = true :=
  List.all_eq_true

/-- The path's name is a key that is allowed. -/
theorem heartbeatObject_keys : (heartbeatObject id o).keys.all (["device_id", "at"].contains ·)
    = o.keys.all (["device_id", "at"].contains ·) := by
  rw [Bool.eq_iff_iff, keys_all_iff, keys_all_iff]
  constructor
  · exact fun h k hk => h k (AList.mem_union.mpr (.inl hk))
  · intro h k hk
    rcases AList.mem_union.mp hk with hbody | hpath
    · exact h k hbody
    · obtain rfl := List.mem_singleton.mp hpath
      rfl

/-- A body that names a device is read as if there were no path. -/
theorem parse_merged (h : "device_id" ∈ o) :
    parseHeartbeatBody A (heartbeatObject id o) = parseHeartbeatBody A o := by
  unfold parseHeartbeatBody uuidField datetimeField
  rw [heartbeatObject_keys, heartbeatObject_device h, heartbeatObject_at]

theorem parse_device (h : parseHeartbeatBody A o = some data) :
    o.lookup "device_id" = some (.str data.deviceId) := by
  unfold parseHeartbeatBody at h
  split at h
  · obtain ⟨device, hdevice, h⟩ := Option.bind_eq_some_iff.mp h
    obtain ⟨atTime, _, h⟩ := Option.bind_eq_some_iff.mp h
    obtain rfl := Option.some.inj h
    obtain ⟨hstr, _⟩ := Option.filter_eq_some_iff.mp hdevice
    unfold asString at hstr
    split at hstr
    · rename_i hlookup
      exact (Option.some.inj hstr) ▸ hlookup
    · cases hstr
  · cases h

/-! ## Answers -/

/-- What is recorded is what the merged object says. -/
theorem heartbeat_recorded {d t : String} : heartbeat A r = .recorded d t ↔
    requireServiceToken A.env r.serviceToken = none ∧
      ∃ data, parseHeartbeatBody A (heartbeatObject r.id r.body.spread) = some data
        ∧ data.deviceId = d ∧ data.atTime.getD r.now = t := by
  unfold heartbeat
  cases requireServiceToken A.env r.serviceToken with
  | some reply => simp
  | none =>
      cases parseHeartbeatBody A (heartbeatObject r.id r.body.spread) with
      | none => simp
      | some data => simp

/-- Only a heartbeat that is recorded is answered 204. -/
theorem heartbeat_code (h : (heartbeat A r).code = 204) : ∃ d t, heartbeat A r = .recorded d t := by
  unfold heartbeat at h ⊢
  cases hguard : requireServiceToken A.env r.serviceToken with
  | some reply =>
      rw [hguard] at h
      have hcode := requireServiceToken_code hguard
      dsimp only [HeartbeatAnswer.code] at h
      omega
  | none =>
      rw [hguard] at h
      dsimp only at h ⊢
      cases hparse : parseHeartbeatBody A (heartbeatObject r.id r.body.spread) with
      | none => rw [hparse] at h; cases h
      | some data => exact ⟨_, _, rfl⟩

/-- The request counts for the device in its path, if at all, and names no other. -/
structure CountsForPath (A : DeviceService) (r : HeartbeatRequest) : Prop where
  recorded : ∀ d t, heartbeat A r = .recorded d t → d = r.id
  rejected : ∀ v, r.body.spread.lookup "device_id" = some v → v ≠ .str r.id →
    (heartbeat A r).code ≠ 204

/-- The caller has the service token, and the body is on its own a valid heartbeat, of another
device than the path's. -/
def Redirects (A : DeviceService) (r : HeartbeatRequest) : Prop :=
  requireServiceToken A.env r.serviceToken = none ∧
    ∃ data, parseHeartbeatBody A r.body.spread = some data ∧ data.deviceId ≠ r.id

/-- The device of the body, if it names one. -/
theorem recorded_device {d t : String} (h : heartbeat A r = .recorded d t)
    (hbody : "device_id" ∈ r.body.spread) :
    ∃ data, parseHeartbeatBody A r.body.spread = some data ∧ data.deviceId = d := by
  obtain ⟨_, data, hparse, hdevice, _⟩ := heartbeat_recorded.mp h
  rw [parse_merged hbody] at hparse
  exact ⟨data, hparse, hdevice⟩

/-- The device of the path, if the body names none. -/
theorem recorded_path {d t : String} (h : heartbeat A r = .recorded d t)
    (hbody : "device_id" ∉ r.body.spread) : d = r.id := by
  obtain ⟨_, data, hparse, rfl, _⟩ := heartbeat_recorded.mp h
  have hlookup := parse_device hparse
  rw [heartbeatObject_path hbody] at hlookup
  exact (Json.str.inj (Option.some.inj hlookup)).symm

theorem redirects_recorded (h : Redirects A r) :
    ∃ d t, heartbeat A r = .recorded d t ∧ d ≠ r.id := by
  obtain ⟨hguard, data, hparse, hne⟩ := h
  have hbody : "device_id" ∈ r.body.spread :=
    AList.lookup_isSome.mp (parse_device hparse ▸ rfl)
  exact ⟨_, _, heartbeat_recorded.mpr ⟨hguard, data, (parse_merged hbody).trans hparse, rfl, rfl⟩,
    hne⟩

/--
**A heartbeat counts for the device in its path exactly if it is not redirected**, which takes
nothing but a body that names another device.
-/
theorem heartbeat_counts_iff (A : DeviceService) (r : HeartbeatRequest) :
    CountsForPath A r ↔ ¬ Redirects A r := by
  constructor
  · intro hcounts hred
    obtain ⟨d, t, hrec, hne⟩ := redirects_recorded hred
    exact hne (hcounts.recorded d t hrec)
  · intro hred
    have hsame : ∀ d t, heartbeat A r = .recorded d t → d = r.id := by
      intro d t hrec
      by_cases hbody : "device_id" ∈ r.body.spread
      · -- the body is a heartbeat of its own, so it names the path's device
        obtain ⟨data, hparse, rfl⟩ := recorded_device hrec hbody
        by_contra hne
        exact hred ⟨(heartbeat_recorded.mp hrec).1, data, hparse, hne⟩
      · exact recorded_path hrec hbody
    refine ⟨hsame, ?_⟩
    intro v hv hne hcode
    obtain ⟨d, t, hrec⟩ := heartbeat_code hcode
    have hbody : "device_id" ∈ r.body.spread := AList.lookup_isSome.mp (hv ▸ rfl)
    obtain ⟨data, hparse, hdevice⟩ := recorded_device hrec hbody
    rw [parse_device hparse, hdevice, hsame d t hrec] at hv
    exact hne (Option.some.inj hv).symm

def sampleDevices : DeviceService := ⟨sampleService, fun s => s.length = 24⟩

/-- A heartbeat in the path of one device, whose body names another. -/
def redirected : HeartbeatRequest where
  now := "2026-01-05T09:30:00.000Z"
  serviceToken := .one "service"
  id := "0b7c2a94-1e5d-4c38-8f62-7a9e4d1c5b22"
  body := .object (AList.singleton "device_id" (.str "a3e8f701-5b2c-4d96-b1a4-2c6d8e0f9c33"))

/-- **The body's device is recorded.** -/
theorem heartbeat_redirected : ¬ ∀ r d t, heartbeat sampleDevices r = .recorded d t → d = r.id := by
  intro hall
  have hrec : heartbeat sampleDevices redirected = .recorded "a3e8f701-5b2c-4d96-b1a4-2c6d8e0f9c33"
      "2026-01-05T09:30:00.000Z" := by
    decide +kernel
  exact absurd (hall _ _ _ hrec) (by decide)

end KinBridge.Proof
