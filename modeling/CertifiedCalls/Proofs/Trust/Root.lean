import CertifiedCalls.Proofs.Call.Asking
import CertifiedCalls.Proofs.Trust.Lives

/-! # One root of trust
Over the whole life of an agent, whatever the transport does, all certificates are opened with one
key: the configured one or, where there is none, the first that was fetched (`root_of_trust`). -/

namespace CertifiedCalls

variable {σ : Type}

/-- An entry **relies** on a key when it does not ask for the root key, and opens a certificate with
that key if it opens one. -/
def Entry.Relies (key : Bytes) (e : Entry platform) : Prop :=
  (∀ number, e.what ≠ .asked number .rootKey) ∧
    ∀ number certificate key' target,
      e.what = .asked number (.openCertificate certificate key' target) → key' = key

/-- A life has **one root of trust**. -/
structure RootOfTrust (configured : Option Bytes) (logs : List (List (Entry platform)))
    (w : World platform σ) : Prop extends Life.Secured configured logs w where
  /-- With a configured key all rely on it. -/
  given : ∀ key, configured = some key → ∀ e ∈ logs.flatten, e.Relies key
  /-- Once a key has been fetched all rely on it. -/
  settled : ∀ later fetched earlier key, logs.flatten = later ++ fetched :: earlier →
    fetched.what.fetched? = some key → ∀ e ∈ later, e.Relies key
  /-- The key is asked for where none is known, and a certificate is opened with one that is. -/
  known : ∀ later e earlier, logs.flatten = later ++ e :: earlier →
    (∀ number, e.what = .asked number .rootKey → keyIn configured earlier = none) ∧
      ∀ number certificate key target,
        e.what = .asked number (.openCertificate certificate key target) →
          keyIn configured earlier = some key
  /-- A fetch that fails or is given up leaves no key. -/
  unset : ∀ later e earlier number, logs.flatten = later ++ e :: earlier →
    e.what.landed? = some number → e.what.fetched? = none → keyIn configured (e :: earlier) = none
  /-- At most one fetch is under way at a time. -/
  single : ∀ log ∈ logs, ∀ later earlier, log = later ++ earlier → (flights earlier).length ≤ 1

/-! ### From bouts to a life -/

/-- At most one fetch is under way after a trusted log. -/
theorem Trusted.flights_le {configured : Option Bytes} {log : List (Entry platform)}
    (trusted : Trusted configured log) : (flights log).length ≤ 1 := by
  induction log with
  | nil => exact Nat.zero_le 1
  | cons e log ih =>
    have before := ih trusted.1
    rw [flights]
    cases what : e.what with
    | said event => exact before
    | asked number r =>
      cases r with
      | rootKey =>
        rw [(trusted.2.fetch number what).2.1]
        exact Nat.le_refl 1
      | _ => exact before
    | answered number r answer =>
      cases r with
      | rootKey => exact Nat.le_trans (List.length_erase_le) before
      | _ => exact before
    | abandoned number r =>
      cases r with
      | rootKey => exact Nat.le_trans (List.length_erase_le) before
      | _ => exact before

/-- The earlier part of a trusted log is trusted. -/
theorem Trusted.earlier {configured : Option Bytes} {later log : List (Entry platform)}
    (trusted : Trusted configured (later ++ log)) : Trusted configured log := by
  induction later with
  | nil => exact trusted
  | cons _ later ih => exact ih trusted.1

/-- Each entry of the record of a life stands in one of its bouts. -/
theorem exists_bout {logs : List (List (Entry platform))} {later earlier : List (Entry platform)}
    {e : Entry platform} (split : logs.flatten = later ++ e :: earlier) :
    ∃ after log before ahead behind, logs = after ++ log :: before ∧ log = ahead ++ e :: behind ∧
      earlier = behind ++ before.flatten := by
  induction logs generalizing later with
  | nil => simp at split
  | cons log logs ih =>
    rw [List.flatten_cons] at split
    rcases List.append_eq_append_iff.mp split with ⟨rest, rfl, tail⟩ | ⟨rest, rfl, tail⟩
    · obtain ⟨after, log', before, ahead, behind, rfl, inner, e⟩ := ih tail
      exact ⟨log :: after, log', before, ahead, behind, rfl, inner, e⟩
    · cases rest with
      | nil =>
        have tail : logs.flatten = [] ++ e :: earlier := tail.symm
        obtain ⟨after, log', before, ahead, behind, rfl, inner, e⟩ := ih tail
        exact ⟨_ :: after, log', before, ahead, behind, rfl, inner, e⟩
      | cons first rest =>
        obtain ⟨rfl, rfl⟩ := List.cons.inj tail
        exact ⟨[], _, logs, later, rest, rfl, rfl, rfl⟩

namespace Life.Secured

variable {configured : Option Bytes} {logs : List (List (Entry platform))} {w : World platform σ}
  {later earlier : List (Entry platform)} {e : Entry platform}

/-- Each entry of the record is allowed by those before it in its bout. -/
theorem exists_allowed (h : Secured configured logs w) (split : logs.flatten = later ++ e :: earlier) :
    ∃ before behind, earlier = behind ++ before ∧ Allowed (keyIn configured before) behind e := by
  obtain ⟨after, log, before, ahead, behind, cut, inner, rfl⟩ := exists_bout split
  have trusted := (h.bouts after log before cut).1
  rw [inner] at trusted
  exact ⟨before.flatten, behind, rfl, trusted.allowed⟩

/-- The key is asked for where none is known. -/
theorem unknown_of_asked (h : Secured configured logs w)
    (split : logs.flatten = later ++ e :: earlier) {number : Nat}
    (asked : e.what = .asked number .rootKey) : keyIn configured earlier = none := by
  obtain ⟨before, behind, rfl, allowed⟩ := h.exists_allowed split
  rw [keyIn_append]
  exact (allowed.fetch number asked).1

/-- A certificate is opened with the key that is known. -/
theorem known_of_opened (h : Secured configured logs w)
    (split : logs.flatten = later ++ e :: earlier) {number : Nat} {certificate key : Bytes}
    {target : CanisterId} (opened : e.what = .asked number (.openCertificate certificate key target)) :
    keyIn configured earlier = some key := by
  obtain ⟨before, behind, rfl, allowed⟩ := h.exists_allowed split
  rw [keyIn_append]
  exact (allowed.verify number certificate key target opened).1

/-- A fetch ends where no key is known. -/
theorem unknown_of_landed (h : Secured configured logs w)
    (split : logs.flatten = later ++ e :: earlier) {number : Nat}
    (landed : e.what.landed? = some number) : keyIn configured earlier = none := by
  obtain ⟨before, behind, rfl, allowed⟩ := h.exists_allowed split
  rw [keyIn_append]
  exact (allowed.ends number landed).2

/-- Where a key is known before an entry, the entry relies on it. -/
theorem relies (h : Secured configured logs w) (split : logs.flatten = later ++ e :: earlier)
    {key : Bytes} (known : keyIn configured earlier = some key) : e.Relies key := by
  refine ⟨fun number asked => ?_, fun number certificate key' target opened => ?_⟩
  · exact nomatch known.symm.trans (h.unknown_of_asked split asked)
  · exact Option.some.inj ((h.known_of_opened split opened).symm.trans known)

/-- A life whose bouts are secured has one root of trust. -/
theorem rootOfTrust (h : Secured configured logs w) : RootOfTrust configured logs w where
  toSecured := h
  given key known e mem := by
    obtain ⟨later, earlier, split⟩ := List.append_of_mem mem
    refine h.relies split ?_
    have first : keyIn configured [] = some key := known
    have all := keyIn_append_of_some first earlier
    rw [List.append_nil] at all
    exact all
  settled later fetched earlier key split brought e mem := by
    obtain ⟨after, between, rfl⟩ := List.append_of_mem mem
    have cut : logs.flatten = after ++ e :: (between ++ fetched :: earlier) := by
      rw [split, List.append_assoc, List.cons_append]
    refine h.relies cut (keyIn_append_of_some ?_ between)
    obtain ⟨number, landed⟩ := Happening.landed?_of_fetched? brought
    rw [keyIn, h.unknown_of_landed split landed, brought]
    rfl
  known later e earlier split :=
    ⟨fun _ asked => h.unknown_of_asked split asked,
      fun _ _ _ _ opened => h.known_of_opened split opened⟩
  unset later e earlier number split landed failed := by
    rw [keyIn, h.unknown_of_landed split landed, failed]
    rfl
  single log mem later earlier split := by
    obtain ⟨after, before, cut⟩ := List.append_of_mem mem
    have trusted := (h.bouts after log before cut).1
    rw [split] at trusted
    exact trusted.earlier.flights_le

end Life.Secured

/-- **One root of trust.** Whatever queries and updates are made through an agent, one after the other
or side by side and then in whatever order, and however they are answered, it relies on one key: the
configured one, or the first that was fetched. Queries never fetch it, uploads are no exception, and
where sessions side by side have nothing left to do at once and one of them waits for the key, a fetch
of it is under way. -/
theorem root_of_trust (a : Agent) (env : Environment platform σ) (state : σ)
    {logs : List (List (Entry platform))} {w : World platform σ} (life : Life a env state logs w) :
    RootOfTrust a.config.rootKey logs w ∧
      (∀ (α : Type) (ps : List (Workflow platform α)) (limit : Nat) (isFinal : α → Bool)
        (pool : Pool platform σ α), (∀ p ∈ ps, a.Uses p) →
          Pool.Reaches env isFinal (Pool.start w limit ps) pool → pool.ready = [] →
            ∀ i deadline next, (i, .inLine deadline next) ∈ pool.waiting →
              flights (w.since pool.world) ≠ []) ∧
      (∀ (u : Upload) (index : CanisterId) (steps : Nat) (c : UploadConfig), ∃ more,
        Life a env state (more ++ logs) (u.run (StorageClient.through a index) env steps c w).1) ∧
      ∀ (β : Type) (c : Call) (mapper : Mapper Value β),
        (a.query c mapper).Confined (PlatformRequest.Queries c a.config.layout) fun _ => False := by
  refine ⟨life.secured.rootOfTrust, fun α ps limit isFinal pool uses reaches ready => ?_,
    fun u index steps c => life.upload u index steps c, fun β c mapper => confined_query a c mapper⟩
  obtain ⟨log, bout, waits⟩ := Pool.secured_of_reaches (fun p mem => (uses p mem).obeys) reaches
  intro i deadline next mem
  have log_eq : w.since pool.world = log := World.since_of_past bout.past
  rw [log_eq]
  exact waits ready i deadline next mem

/-- Two updates and a query run side by side, and the fetch of the key takes too long. The update that
makes it gives it up at the deadline. That is the deadline of the other one as well, to which the
fetch is handed then, and which makes one and gives it up at once. The update that follows makes a
third, which succeeds. -/
theorem root_of_trust_third_fetch :
    let id : RequestId := ⟨List.replicate 32 7, rfl⟩
    let env : Environment platform Nat := fun fetches _ r =>
      match r with
      | .query _ _ _ => ⟨fetches, 1000000, .error (.ofMessage "no")⟩
      | .update _ _ _ => ⟨fetches, 2000000, .ok ⟨id, .accepted⟩⟩
      | .readState _ _ => ⟨fetches, 1000000, .ok [1]⟩
      | .rootKey => ⟨fetches + 1, if fetches < 2 then 50000000 else 1000000, .ok [9]⟩
      | .openCertificate _ _ _ => ⟨fetches, 0, .error (.ofMessage "no")⟩
    let a : Agent :=
      ⟨{ AgentConfig.brisk with poll := ⟨10, PollSettings.growth, 100, 15⟩ }, .messages, 10⟩
    let c : Call := ⟨⟨[4], by decide⟩, "stop", .null, .null, .null⟩
    let update : Workflow platform (Except FailedCall Value) := a.update c (.pure .ok)
    let query : Workflow platform (Except FailedCall Value) := a.query c (.pure .ok)
    let sessions := (Pool.start (.start 0 none) 3 [update, query, update]).run env (fun _ => false) 40
    let first := sessions.world
    let w := (update.run env first).1
    let logs := [first.since w, (World.start 0 none).since first]
    sessions.ended.length = 3 ∧ first.key = none ∧ first.state = 2 ∧ w.key = some [9] ∧ w.state = 3 ∧
      Life a env 0 logs w ∧ RootOfTrust none logs w := by
  intro id env a c update query sessions first w logs
  have fetched : sessions.ended.length = 3 ∧ first.key = none ∧ first.state = 2 ∧ w.key = some [9] ∧
      w.state = 3 := by
    decide +kernel +revert
  obtain ⟨ended, unset, twice, known, thrice⟩ := fetched
  have updates : a.Uses update := a.uses_update c (.pure .ok)
  have all : ∀ p ∈ [update, query, update], a.Uses p :=
    List.forall_mem_cons.mpr ⟨updates, List.forall_mem_cons.mpr
      ⟨a.uses_query c (.pure .ok), List.forall_mem_singleton.mpr updates⟩⟩
  have together : Pool.Reaches env (fun _ => false) _ sessions := Pool.reaches_run env _ _ 40
  have life : Life a env 0 logs w := (Life.start.together all together).alone updates
  exact ⟨ended, unset, twice, known, thrice, life, (root_of_trust a env 0 life).1⟩

end CertifiedCalls
