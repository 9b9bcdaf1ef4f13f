import Mathlib.Data.List.Nodup
import BookingSystem.Base.Run
import BookingSystem.Service.Secrets

/-!
# Rotated keys

Processes start one after the other, each with an environment that has the keys of the one before, and seal credentials.
With the provider of versioned keys every record can be read later. But without `KMS_PROVIDER` a process that has the
legacy key does not ask the provider: it seals under `v1` whatever version is active, and reads no other. So no record
is lost as long as every process asks the provider, or `v1` is the active version and the only one so far
(`rotation_keeps`).
-/

namespace BookingSystem.Runs.KeyRotation

open Base Base.Base64 Service.Secrets

/-- A credential that was sealed, with the version that was to be active. -/
structure Record where
  plaintext : Bytes
  nonce : Nonce
  stored : String
  version : String

/-- The environment of the last process, the process while it lives, and what was sealed so far. -/
structure Installation where
  env : Environ := []
  process : Option Process := none
  records : List Record := []

/-- A process starts in an environment, with the random bytes that it may draw, or seals a text. -/
inductive Event
  | start (env : Environ) (drawn : Bytes)
  | sealText (plaintext : Bytes) (nonce : Nonce)

section

variable (f : Cases) (g : Gcm)

/-- A start that fails leaves no process; nor does a failed call of `Obfuscate`. -/
def step (s : Installation) (e : Event) : Installation :=
  match e with
  | .start env drawn =>
    match boot f env drawn with
    | .ok process => { s with env := env, process := some process }
    | .error _ => { s with process := none }
  | .sealText plaintext nonce =>
    match s.process with
    | none => s
    | some process =>
      if plaintext = [] then s
      else
        match obfuscate g process nonce plaintext with
        | .ok stored => { s with records := ⟨plaintext, nonce, stored, activeVersion f s.env⟩ :: s.records }
        | .error _ => { s with process := none }

/-! ### Rotation -/

/-- **A rotation**: the environment has the keys of the one before, one key for each version, versions without a colon,
and an active version that is one of them. -/
structure Rotates (prev env : Environ) : Prop where
  provider : providerName f env = "" ∨ providerName f env = "env"
  distinct : ((entries f env).map Prod.fst).Nodup
  named : ∀ x ∈ entries f env, x.1 ≠ "" ∧ ':' ∉ x.1.toList
  adds : ∀ x ∈ entries f prev, x ∈ entries f env
  active : activeVersion f env ∈ (entries f env).map Prod.fst

/-- The process asks the provider, and the provider can read every key. -/
structure AsksProvider (env : Environ) : Prop where
  asks : providerName f env = "env" ∨
    (getenv env "INTEGRATION_SECRET_KEY" = "" ∧
      f.equalFold (getenv env "ALLOW_DEV_INTEGRATION_EPHEMERAL") "true" = false)
  reads : ∀ x ∈ entries f env, ∃ k, decodeKey x.2 = .ok k

/-- The legacy key is the active one and has been so, and the provider would read it as the same key. -/
structure OnlyLegacy (records : List Record) (env : Environ) : Prop where
  active : activeVersion f env = "v1"
  records : ∀ r ∈ records, r.version = "v1"
  same : ∃ k, ((sized (decode (getenv env "INTEGRATION_SECRET_KEY").toList)).or
    (hexKey (getenv env "INTEGRATION_SECRET_KEY"))) = some k ∧ decodeKey (getenv env "INTEGRATION_SECRET_KEY") = .ok k

def Proper (s : Installation) : Event → Prop
  | .start env _ => Rotates f s.env env ∧ (AsksProvider f env ∨ OnlyLegacy f s.records env)
  | .sealText .. => True

/-- **Nothing is lost**: the process can read every record that was sealed so far; and each record was sealed under the
version that was to be active, with the key that the environment has for it. -/
structure Kept (s : Installation) : Prop where
  revealed : ∀ process ∈ s.process, ∀ r ∈ s.records, reveal f g process r.stored = .ok r.plaintext
  tagged : ∀ r ∈ s.records, ∃ text k, (r.version, text) ∈ entries f s.env ∧ decodeKey text = .ok k ∧
    r.stored = envelope g k r.version r.nonce r.plaintext

end

/-! ### What a process reads -/

section

variable {f : Cases} {g : Gcm} {env : Environ} {process : Process} {version text : String} {k : Key}

/-- The process finds the keys of some of the versions, and seals under the active one. -/
structure Serves (f : Cases) (env : Environ) (process : Process) (versions : String → Prop) : Prop where
  reads : ∀ version text k, versions version → (version, text) ∈ entries f env → decodeKey text = .ok k →
    keyForVersion f process version = .ok k
  active : ∃ text k, (activeVersion f env, text) ∈ entries f env ∧ decodeKey text = .ok k ∧
    activeKey process = .ok (k, activeVersion f env) ∧ versions (activeVersion f env)

theorem toLower_of_entry (hf : f.Sound) (h : (version, text) ∈ entries f env) : f.toLower version = version := by
  obtain h | h := List.mem_append.1 h
  · split at h
    · cases h
    · cases List.mem_singleton.1 h
      exact hf.toLower_v1
  · obtain ⟨x, -, hx⟩ := List.mem_filterMap.1 h
    obtain ⟨ver, -, heq⟩ := Option.map_eq_some_iff.1 hx
    cases heq
    exact hf.toLower_toLower ver

theorem newProvider_eq (h : providerName f env = "" ∨ providerName f env = "env") : newProvider f env = load f env := by
  have hname : (if providerName f env = "" then "env" else providerName f env) = "env" := by
    obtain h | h := h
    · rw [if_pos h]
    · rw [h]
      rfl
  rw [newProvider, hname]
  exact if_pos rfl

theorem lookup_of_load (hf : f.Sound) {prev : Environ} (hrot : Rotates f prev env) {ring : KeyRing}
    (h : load f env = .ok ring) (hmem : (version, text) ∈ entries f env) (hk : decodeKey text = .ok k) :
    ring.keys.lookup (f.toLower version) = some k := by
  rw [toLower_of_entry hf hmem]
  exact (load_ok h).1.lookup hrot.distinct hmem hk

theorem serves_ring (hf : f.Sound) {prev : Environ} (hrot : Rotates f prev env) {ring : KeyRing}
    (h : load f env = .ok ring) (hprocess : process.kmsProvider = some ring) :
    Serves f env process fun _ => True := by
  have hreads : ∀ version text k, True → (version, text) ∈ entries f env → decodeKey text = .ok k →
      keyForVersion f process version = .ok k := by
    intro version text k _ hmem hk
    simp only [keyForVersion, (hrot.named _ hmem).1, if_false, hprocess, lookup_of_load hf hrot h hmem hk]
  obtain ⟨⟨version, text⟩, hmem, hversion⟩ := List.mem_map.1 hrot.active
  dsimp only at hversion
  subst hversion
  obtain ⟨k, hk, -⟩ := (load_ok h).1.read _ hmem
  have hactive : ring.active = activeVersion f env := (load_ok h).2 (hrot.named _ hmem).1
  refine ⟨hreads, text, k, hmem, hk, ?_, trivial⟩
  have hlookup : ring.keys.lookup (activeVersion f env) = some k := (load_ok h).1.lookup hrot.distinct hmem hk
  simp only [activeKey, hprocess, hactive, hlookup, Option.getD_some]

theorem exists_addKeys (keys : List (String × Key)) (h : ∀ x ∈ versioned f env, ∃ k, decodeKey x.2 = .ok k) :
    ∃ keys', addKeys f env keys = .ok keys' := by
  fun_induction addKeys f env keys with
  | case1 keys => exact ⟨keys, rfl⟩
  | case2 name text env keys hversion ih =>
    refine ih fun x hx => h x ?_
    rwa [versioned, List.filterMap_cons_none (by simp [hversion])]
  | case3 name text env keys ver hversion e he =>
    obtain ⟨k, hk⟩ := h (f.toLower ver, text) (List.mem_filterMap.2 ⟨_, List.mem_cons_self, by simp [hversion]⟩)
    cases he.symm.trans hk
  | case4 name text env keys ver hversion k hk ih =>
    refine ih fun x hx => h x ?_
    rw [versioned, List.filterMap_cons_some (b := (f.toLower ver, text)) (by simp [hversion])]
    exact List.mem_cons_of_mem _ hx

theorem exists_load {prev : Environ} (hrot : Rotates f prev env)
    (h : ∀ x ∈ entries f env, ∃ k, decodeKey x.2 = .ok k) : ∃ ring, load f env = .ok ring := by
  obtain ⟨legacy, hlegacy⟩ : ∃ legacy, unversioned env = .ok legacy := by
    unfold unversioned
    dsimp only
    split
    · exact ⟨[], rfl⟩
    · rename_i hset
      obtain ⟨k, hk⟩ := h ("v1", _) (List.mem_append_left _ (by rw [if_neg hset]; exact List.mem_singleton_self _))
      rw [hk]
      exact ⟨_, rfl⟩
  obtain ⟨keys, hkeys⟩ := exists_addKeys legacy fun x hx => h x (List.mem_append_right _ hx)
  -- the active version is one of those that were read
  obtain ⟨⟨version, text⟩, hmem, hversion⟩ := List.mem_map.1 hrot.active
  dsimp only at hversion
  subst hversion
  obtain ⟨k, hk⟩ := h _ hmem
  have hlookup : keys.lookup (activeVersion f env) = some k :=
    (readFrom_addKeys hkeys (readFrom_unversioned hlegacy)).lookup hrot.distinct hmem hk
  have hne : activeVersion f env ≠ "" := (hrot.named _ hmem).1
  have hkeysne : keys ≠ [] := by
    rintro rfl
    cases hlookup
  refine exists_bind_ok hlegacy (exists_bind_ok hkeys ?_)
  simp [hne, hlookup, hkeysne]

theorem serves_of_asks (hf : f.Sound) {prev : Environ} (hrot : Rotates f prev env) (hasks : AsksProvider f env)
    {drawn : Bytes} (h : boot f env drawn = .ok process) : Serves f env process fun _ => True := by
  obtain ⟨secretKey, hsecret, h⟩ := bind_eq_ok.1 h
  obtain ⟨kms, hkms, h⟩ := bind_eq_ok.1 h
  obtain rfl := pure_eq_ok.1 h
  obtain ⟨ring, hring⟩ := exists_load hrot hasks.reads
  refine serves_ring hf hrot hring ?_
  have hlegacy : ¬ (providerName f env = "" ∧ secretKey.isSome = true) := by
    rintro ⟨hname, hsome⟩
    obtain hasks | ⟨hunset, hdraw⟩ := hasks.asks
    · exact absurd (hname.symm.trans hasks) (by decide)
    · simp only [loadLegacySecretKey, hunset, hdraw, ne_eq, not_true_eq_false, if_false, Bool.false_eq_true] at hsecret
      cases hsecret
      cases hsome
  rw [loadKMSProvider, if_neg hlegacy, newProvider_eq hrot.provider, hring] at hkms
  exact (Except.ok.inj hkms).symm

/-- A process with the legacy key, which is the active one, serves the version `v1`. -/
theorem serves_of_onlyLegacy (hf : f.Sound) {prev : Environ} (hrot : Rotates f prev env) {records : List Record}
    (honly : OnlyLegacy f records env) {drawn : Bytes} (h : boot f env drawn = .ok process) :
    Serves f env process fun version => version = "v1" := by
  obtain ⟨secretKey, hsecret, h⟩ := bind_eq_ok.1 h
  obtain ⟨kms, hkms, h⟩ := bind_eq_ok.1 h
  obtain rfl := pure_eq_ok.1 h
  obtain ⟨k, hlegacy, hk⟩ := honly.same
  have hset : getenv env "INTEGRATION_SECRET_KEY" ≠ "" := by
    intro hunset
    rw [hunset] at hlegacy
    have hempty : (sized (decode "".toList)).or (hexKey "") = none := by decide
    rw [hempty] at hlegacy
    cases hlegacy
  have hmem : ("v1", getenv env "INTEGRATION_SECRET_KEY") ∈ entries f env :=
    List.mem_append_left _ (by rw [if_neg hset]; exact List.mem_singleton_self _)
  obtain rfl : some k = secretKey := by
    simpa [loadLegacySecretKey, hset, hlegacy] using hsecret
  cases kms with
  | none =>
    refine ⟨fun version text k' hversion hmem' hk' => ?_, _, k, honly.active ▸ hmem, hk, ?_, honly.active⟩
    · subst hversion
      have htext : text = getenv env "INTEGRATION_SECRET_KEY" :=
        congrArg Prod.snd (List.inj_on_of_nodup_map hrot.distinct hmem' hmem rfl)
      subst htext
      obtain rfl : k = k' := Except.ok.inj (hk.symm.trans hk')
      rfl
    · rw [honly.active]
      rfl
  | some ring =>
    have hload : load f env = .ok ring := by
      unfold loadKMSProvider at hkms
      split at hkms
      · cases hkms
      · rw [newProvider_eq hrot.provider] at hkms
        split at hkms
        · rename_i ring' hring
          cases hkms
          exact hring
        · cases hkms
    have hserves : Serves f env ⟨some k, some ring⟩ fun _ => True := serves_ring hf hrot hload rfl
    obtain ⟨text, k', hmem', hk', hactive, -⟩ := hserves.active
    exact ⟨fun version text k _ => hserves.reads version text k trivial, text, k', hmem', hk', hactive, honly.active⟩

/-! ### What was sealed -/

/-- The record is an envelope under the key that the environment has for its version. -/
structure Sealed (f : Cases) (g : Gcm) (env : Environ) (r : Record) : Prop where
  named : ':' ∉ r.version.toList
  key : ∃ text k, (r.version, text) ∈ entries f env ∧ decodeKey text = .ok k ∧ newCipher k = .ok () ∧
    r.stored = envelope g k r.version r.nonce r.plaintext

/-- The process serves the versions of the records. -/
structure Inv (f : Cases) (g : Gcm) (s : Installation) : Prop where
  named : ∀ x ∈ entries f s.env, ':' ∉ x.1.toList
  records : ∀ r ∈ s.records, Sealed f g s.env r
  serves : ∀ process ∈ s.process, ∃ versions, Serves f s.env process versions ∧ ∀ r ∈ s.records, versions r.version

variable {s : Installation}

theorem Inv.kept (hg : g.Opens) (h : Inv f g s) : Kept f g s where
  revealed process hprocess r hr := by
    obtain ⟨hcolon, text, k, hmem, hk, hsize, hstored⟩ := h.records r hr
    obtain ⟨versions, hserves, hall⟩ := h.serves process hprocess
    rw [hstored, reveal_envelope hcolon, decryptGCM_encode (hserves.reads _ _ _ (hall r hr) hmem hk) hsize, hg]
    rfl
  tagged r hr := by
    obtain ⟨-, text, k, hmem, hk, -, hstored⟩ := h.records r hr
    exact ⟨text, k, hmem, hk, hstored⟩

theorem inv_start (hf : f.Sound) (h : Inv f g s) (env : Environ) (drawn : Bytes)
    (hproper : Proper f s (.start env drawn)) : Inv f g (step f g s (.start env drawn)) := by
  obtain ⟨hrot, hkeys⟩ := hproper
  dsimp only [step]
  split
  · rename_i process hboot
    refine ⟨fun x hx => (hrot.named x hx).2, fun r hr => ?_, fun process' hprocess' => ?_⟩
    · obtain ⟨hcolon, text, k, hmem, hkey⟩ := h.records r hr
      exact ⟨hcolon, text, k, hrot.adds _ hmem, hkey⟩
    · obtain rfl := Option.mem_some.1 hprocess'
      obtain hasks | honly := hkeys
      · exact ⟨_, serves_of_asks hf hrot hasks hboot, fun _ _ => trivial⟩
      · exact ⟨_, serves_of_onlyLegacy hf hrot honly hboot, honly.records⟩
  · exact ⟨h.named, h.records, fun process' hprocess' => absurd hprocess' (by simp)⟩

theorem inv_seal (h : Inv f g s) (plaintext : Bytes) (nonce : Nonce) :
    Inv f g (step f g s (.sealText plaintext nonce)) := by
  dsimp only [step]
  split
  · exact h
  · rename_i process hprocess
    split
    · exact h
    · rename_i hne
      split
      · rename_i stored hstored
        obtain ⟨k, version, hactive, hsize, rfl⟩ := obfuscate_ok hstored hne
        obtain ⟨versions, hserves, hall⟩ := h.serves process hprocess
        obtain ⟨text, k', hmem, hk, hactive', hversions⟩ := hserves.active
        -- the process seals under the version that is to be active
        obtain ⟨rfl, rfl⟩ := Prod.mk.inj (Except.ok.inj (hactive.symm.trans hactive'))
        refine ⟨h.named, fun r hr => ?_, fun process' hprocess' => ⟨versions, ?_, fun r hr => ?_⟩⟩
        · obtain rfl | hr := List.mem_cons.1 hr
          · exact ⟨h.named _ hmem, text, k, hmem, hk, hsize, rfl⟩
          · exact h.records r hr
        · obtain rfl := Option.some.inj (hprocess.symm.trans hprocess')
          exact hserves
        · obtain rfl | hr := List.mem_cons.1 hr
          · exact hversions
          · exact hall r hr
      · exact ⟨h.named, h.records, fun process' hprocess' => absurd hprocess' (by simp)⟩

end

/-- **Rotation.** In every run whose starts are rotations that ask the provider, or have only had the legacy key, every
record is revealed by the process at work, and was sealed under the version that was to be active. -/
theorem rotation_keeps (f : Cases) (hf : f.Sound) (g : Gcm) (hg : g.Opens) (es : List Event)
    (h : AllSteps (step f g) (Proper f) {} es) : Kept f g (run (step f g) {} es) := by
  have hstart : Inv f g {} := ⟨nofun, nofun, nofun⟩
  refine (run_invariant (I := Inv f g) (fun s e hs hproper => ?_) hstart h).kept hg
  cases e with
  | start env drawn => exact inv_start hf hs env drawn hproper
  | sealText plaintext nonce => exact inv_seal hs plaintext nonce

/-! ### Two keys -/

def lowerCase : Cases where
  toLower s := s
  equalFold s t := s == t

theorem sound_lowerCase : lowerCase.Sound := ⟨fun _ => rfl, rfl⟩

def tagOf (k : Key) : Bytes := (k ++ List.replicate 16 0).take 16

def labelled : Gcm where
  gcmSeal k _ p := p ++ tagOf k
  gcmOpen k _ c := if c.drop (c.length - 16) = tagOf k then some (c.take (c.length - 16)) else none

theorem length_tagOf (k : Key) : (tagOf k).length = 16 := by
  simp [tagOf]

theorem opens_labelled : labelled.Opens := by
  intro k n p
  have hlength : (p ++ tagOf k).length - 16 = p.length := by
    rw [List.length_append, length_tagOf, Nat.add_sub_cancel]
  simp only [labelled, hlength, List.drop_left, List.take_left, if_true]

def oneKey (more : Environ) : Environ :=
  [("INTEGRATION_SECRET_KEY", "AAAAAAAAAAAAAAAAAAAAAAAAAAAAAAAAAAAAAAAAAAA=")] ++ more

def twoKeys (more : Environ) : Environ :=
  oneKey (("INTEGRATION_SECRET_KEY_v2", "//////////////////////////////////////////8=") ::
    ("KMS_ACTIVE_VERSION", "v2") :: more)

def nonce : Nonce := ⟨List.replicate 12 7, rfl⟩

def careful : List Event :=
  [.start (oneKey [("KMS_PROVIDER", "env"), ("KMS_ACTIVE_VERSION", "v1")]) [], .sealText [1] nonce,
    .start (twoKeys [("KMS_PROVIDER", "env")]) [], .sealText [2] nonce]

theorem reads_of_all {f : Cases} {env : Environ}
    (h : ((entries f env).all fun x => (decodeKey x.2).toOption.isSome) = true) :
    ∀ x ∈ entries f env, ∃ k, decodeKey x.2 = .ok k := by
  intro x hx
  obtain ⟨k, hk⟩ := Option.isSome_iff_exists.1 (List.all_eq_true.1 h x hx)
  exact ⟨k, toOption_eq_some.1 hk⟩

theorem rotation_keeps_careful : Kept lowerCase labelled (run (step lowerCase labelled) {} careful) ∧
    (run (step lowerCase labelled) {} careful).records.map Record.version = ["v2", "v1"] := by
  have hone : AsksProvider lowerCase (oneKey [("KMS_PROVIDER", "env"), ("KMS_ACTIVE_VERSION", "v1")]) :=
    ⟨.inl (by decide +kernel), reads_of_all (by decide +kernel)⟩
  have htwo : AsksProvider lowerCase (twoKeys [("KMS_PROVIDER", "env")]) :=
    ⟨.inl (by decide +kernel), reads_of_all (by decide +kernel)⟩
  refine ⟨rotation_keeps lowerCase sound_lowerCase labelled opens_labelled careful
    ⟨⟨?_, .inl hone⟩, trivial, ⟨?_, .inl htwo⟩, trivial, trivial⟩, by decide +kernel⟩
  · exact ⟨by decide +kernel, by decide +kernel, by decide +kernel, by decide +kernel, by decide +kernel⟩
  · exact ⟨by decide +kernel, by decide +kernel, by decide +kernel, by decide +kernel, by decide +kernel⟩

def hasty : List Event :=
  [.start (twoKeys [("KMS_PROVIDER", "env")]) [], .sealText [1] nonce, .start (twoKeys []) [], .sealText [2] nonce]

/-- The records have the versions `v2` and `v1`, though `v2` was to be active at both starts, and the second process
cannot read the first one. -/
theorem version_lost :
    Rotates lowerCase [] (twoKeys [("KMS_PROVIDER", "env")]) ∧
      Rotates lowerCase (twoKeys [("KMS_PROVIDER", "env")]) (twoKeys []) ∧
      (run (step lowerCase labelled) {} hasty).records.map Record.version = ["v2", "v2"] ∧
      (run (step lowerCase labelled) {} hasty).records.map (fun r => r.stored.startsWith "enc:v1:") = [true, false] ∧
      (run (step lowerCase labelled) {} hasty).process.map (fun process =>
        (run (step lowerCase labelled) {} hasty).records.map fun r =>
          (reveal lowerCase labelled process r.stored).toOption) = some [some [2], none] := by
  refine ⟨?_, ?_, by decide +kernel, by decide +kernel, by decide +kernel⟩
  · exact ⟨by decide +kernel, by decide +kernel, by decide +kernel, by decide +kernel, by decide +kernel⟩
  · exact ⟨by decide +kernel, by decide +kernel, by decide +kernel, by decide +kernel, by decide +kernel⟩

end BookingSystem.Runs.KeyRotation
