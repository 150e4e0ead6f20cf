import CertifiedCalls.Simulation.InMemory
import CertifiedCalls.Proofs.Certificate.Children
import CertifiedCalls.Proofs.Certificate.Leb128
import CertifiedCalls.Proofs.MessagePack.RoundTrip

/-! # Issued certificates
What the platform in memory **certifies** is what is read from its certificates. The content of a
certificate is a tree of fields, each of which is looked up under its own label
(`statusField_statusTree`), so the status of the request is the one that was certified, and that of
any other is unknown (`requestStatus_statusTree`). Each certificate has a token of its own
(`tokenOf_injective`), by which the platform opens it whatever it issues later
(`Keeps.openCertificate`). -/

namespace CertifiedCalls

namespace StatusField

/-- No two fields have the same label. -/
theorem label_injective {a b : StatusField} (same : a.label = b.label) : a = b := by
  cases a <;> cases b <;> first | rfl | exact absurd same (by decide)

end StatusField

namespace Bytes

/-- Texts with the same octets are the same. -/
theorem ofText_injective {a b : String} (same : ofText a = ofText b) : a = b := by
  have read := congrArg toText? same
  rw [toText?_ofText, toText?_ofText] at read
  exact Option.some.inj read

end Bytes

/-- The text of a field is read back from its octets. -/
theorem HashTree.fieldText_ofText (field : StatusField) (text : String) :
    fieldText field (Bytes.ofText text) = .ok text := by
  rw [fieldText, Bytes.toText?_ofText]

namespace Simulation

/-- The **status** that a certificate of a canned answer gives, if the answer can be certified. -/
def Canned.status? : Canned → Option RequestStatus
  | .reply octets => some (.replied octets)
  | .reject rejection => some (.rejected
      ⟨.ofCode rejection.code.code, rejection.message, rejection.errorCode⟩)
  | .pending => some .processing
  | .certifiedPending => some .processing
  | .unexpected _ => none
  | .fail _ => none

/-- The number of a rejection has 64 bits. -/
def Canned.FitsWord : Canned → Prop
  | .reject rejection => rejection.code.code < Leb128.bound
  | _ => True

namespace Memory

variable {τ : Type}

/-! ### Content -/

section Content

variable (id : RequestId) (fields : List (StatusField × Bytes))

/-- A field of the certified request has the octets that are first given for it; other requests
have no fields. -/
theorem statusField_statusTree (other : RequestId) (field : StatusField) :
    (statusTree id fields).statusField other field
      = if id = other then (fields.lookup field).elim .absent .found else .absent := by
  -- Fields stand under their labels, which are different texts.
  have first : HashTree.firstChild? (Bytes.ofText field.label)
      (fields.map fun f => (Bytes.ofText f.1.label, .leaf f.2))
        = (fields.lookup field).map .leaf := by
    induction fields with
    | nil => rfl
    | cons f rest ih =>
      rw [List.map_cons, HashTree.firstChild?_cons, ih, List.lookup_cons]
      by_cases e : field = f.1
      · simp [e]
      · have ne : Bytes.ofText f.1.label ≠ Bytes.ofText field.label := by
          intro same
          exact e (StatusField.label_injective (Bytes.ofText_injective same)).symm
        rw [if_neg ne, beq_eq_false_iff_ne.mpr e]
  rw [HashTree.statusField, statusPath, statusTree, HashTree.lookup_labeled, if_pos rfl,
    HashTree.lookup_labeled]
  by_cases e : id = other
  · subst e
    rw [if_pos rfl, if_pos rfl, HashTree.lookup_ofChildren, first]
    cases fields.lookup field <;> rfl
  · have ne : id.bytes ≠ other.bytes := by
      intro same
      cases id
      cases other
      exact e (by simpa using same)
    rw [if_neg ne, if_neg e]

/-- A request that a certificate is not about has an unknown status. -/
theorem requestStatus_statusTree_of_ne {other : RequestId} (ne : other ≠ id) :
    (statusTree id fields).requestStatus other = .ok .unknown := by
  rw [HashTree.requestStatus, statusField_statusTree, if_neg ne.symm]

end Content

/-- The rejection that a certificate carries is read back. -/
theorem requestRejection_statusTree (id : RequestId) {r : Rejection}
    (fits : r.code.code < Leb128.bound) :
    (statusTree id (rejectionFields r)).requestRejection id
      = .ok ⟨.ofCode r.code.code, r.message, r.errorCode⟩ := by
  have number : Leb128.read (Leb128.write r.code.code) = some r.code.code := by
    have read := Leb128.read_write fits []
    rwa [List.append_nil] at read
  -- The error code is looked up behind the other fields, and may be missing.
  have code : (rejectionFields r).lookup .rejectCode = some (Leb128.write r.code.code) := rfl
  have message : (rejectionFields r).lookup .rejectMessage = some (Bytes.ofText r.message) := rfl
  have errorCode : (rejectionFields r).lookup .errorCode = r.errorCode.map Bytes.ofText := by
    obtain ⟨_, _, errorCode⟩ := r
    cases errorCode <;> rfl
  simp only [HashTree.requestRejection, statusField_statusTree, if_true, code, message, errorCode,
    Option.elim_some, number, HashTree.fieldText_ofText]
  cases r.errorCode with
  | none => rfl
  | some text =>
    simp only [Option.map_some, Option.elim_some, HashTree.fieldText_ofText]
    rfl

/-- **The status of the request in a certificate is the one that was certified.** -/
theorem requestStatus_statusTree (id : RequestId) {canned : Canned} (fits : canned.FitsWord)
    {fields : List (StatusField × Bytes)} (certified : fieldsOf canned = some fields)
    {status : RequestStatus} (told : canned.status? = some status) :
    (statusTree id fields).requestStatus id = .ok status := by
  -- The name of the status is the first field, and decides which others are read.
  have named {name : String} {rest : List (StatusField × Bytes)}
      (e : fields = (.status, Bytes.ofText name) :: rest) :
      (statusTree id fields).requestStatus id = (statusTree id fields).statusNamed id name := by
    have found : fields.lookup .status = some (Bytes.ofText name) := by
      rw [e]
      rfl
    rw [HashTree.requestStatus, statusField_statusTree, if_pos rfl, found, Option.elim_some]
    simp only [HashTree.fieldText_ofText]
    rfl
  cases canned with
  | reply octets =>
    obtain rfl := Option.some.inj certified
    obtain rfl := Option.some.inj told
    have reply : (statusTree id [(.status, Bytes.ofText "replied"), (.reply, octets)]).requestReply id
        = .ok octets := by
      rw [HashTree.requestReply, statusField_statusTree, if_pos rfl]
      rfl
    rw [named rfl, HashTree.statusNamed]
    simp [reply, Except.map]
  | reject r =>
    obtain rfl := Option.some.inj certified
    obtain rfl := Option.some.inj told
    rw [named rfl, HashTree.statusNamed, requestRejection_statusTree id fits]
    simp [Except.map]
  | pending | certifiedPending =>
    obtain rfl := Option.some.inj certified
    obtain rfl := Option.some.inj told
    rw [named rfl, HashTree.statusNamed]
    simp
  | unexpected | fail => cases certified

/-! ### Tokens -/

/-- No two numbers have the same token. -/
theorem tokenOf_injective {a b : Nat} (same : tokenOf a = tokenOf b) : a = b := by
  have text := (String.append_right_inj _).mp (Bytes.ofText_injective same)
  have digits := congrArg String.toList text
  rw [Nat.toString_eq_repr, Nat.toString_eq_repr, Nat.toList_repr, Nat.toList_repr] at digits
  -- The digits of a number are read back as that number.
  have read := congrArg (fun ds => Nat.ofDigitChars 10 ds 0) digits
  simpa [Nat.ofDigitChars_toDigits] using read

/-- A memory **keeps** the certificates of an earlier one when it has issued no fewer and each token
of the earlier one still belongs to the same certificate. -/
structure Keeps (m m' : Memory τ) : Prop where
  /-- It has issued no fewer. -/
  issued : m.issued ≤ m'.issued
  /-- The tokens still belong to the same certificates. -/
  tokens : ∀ n ≤ m.issued,
    m'.certificates.lookup (tokenOf n) = m.certificates.lookup (tokenOf n)

namespace Keeps

/-- A memory keeps its own certificates. -/
theorem refl (m : Memory τ) : Keeps m m := ⟨Nat.le_refl _, fun _ _ => rfl⟩

/-- What a memory keeps, those that keep its certificates keep. -/
theorem trans {m₁ m₂ m₃ : Memory τ} (first : Keeps m₁ m₂) (second : Keeps m₂ m₃) :
    Keeps m₁ m₃ := by
  refine ⟨Nat.le_trans first.issued second.issued, fun n le => ?_⟩
  rw [second.tokens n (Nat.le_trans le first.issued), first.tokens n le]

/-- A memory with the same certificates keeps them. -/
theorem of_eq {m m' : Memory τ} (issued : m.issued ≤ m'.issued)
    (certificates : m'.certificates = m.certificates) : Keeps m m' := by
  refine ⟨issued, fun n _ => ?_⟩
  rw [certificates]

/-- Issuing a certificate keeps the others, for its token is new. -/
theorem certify (m : Memory τ) (id : RequestId) (canned : Canned) :
    Keeps m (m.certify id canned).1 := by
  unfold Memory.certify
  split
  · refine ⟨Nat.le_succ _, fun n le => ?_⟩
    have ne : tokenOf n ≠ tokenOf (m.issued + 1) := by
      intro same
      have := tokenOf_injective same
      omega
    show List.lookup (tokenOf n) ((tokenOf (m.issued + 1), _) :: m.certificates) = _
    rw [List.lookup_cons, beq_eq_false_iff_ne.mpr ne]
  · exact refl m

/-- Seeing a request keeps all certificates. -/
theorem see (answer : Answerer τ) (m : Memory τ) (seen : Seen) : Keeps m (m.see answer seen).1 :=
  of_eq (Nat.le_refl _) rfl

/-- Answering a request keeps all certificates. -/
theorem environment (answer : Answerer τ) (m : Memory τ) (now : Nat) (r : PlatformRequest) :
    Keeps m (Memory.environment answer m now r).state := by
  cases r with
  | query target method arg => exact see answer m _
  | update target method arg =>
    show Keeps m (m.update answer target method arg).1
    unfold Memory.update
    -- The update takes a number of its own before it is seen.
    have numbered (updates : List (RequestId × (String × Bytes))) :
        Keeps m { m with issued := m.issued + 1, updates } := of_eq (Nat.le_succ _) rfl
    dsimp only
    split
    · exact (numbered _).trans (see answer _ _)
    · exact (numbered _).trans (see answer _ _)
    · exact (numbered _).trans (see answer _ _)
    · exact ((numbered _).trans (see answer _ _)).trans (certify _ _ _)
  | readState target id =>
    show Keeps m (m.readState answer target id).1
    unfold Memory.readState
    dsimp only
    split
    · exact see answer _ _
    · exact (see answer _ _).trans (certify _ _ _)
  | rootKey => exact of_eq (Nat.le_refl _) rfl
  | openCertificate certificate key target => exact refl m

end Keeps

/-- The memory after requests have been answered, each at its time. -/
def after (answer : Answerer τ) (m : Memory τ) (requests : List (Nat × PlatformRequest)) :
    Memory τ :=
  requests.foldl (fun m r => (environment answer m r.1 r.2).state) m

/-- Answering requests keeps all certificates. -/
theorem keeps_after (answer : Answerer τ) (m : Memory τ) (requests : List (Nat × PlatformRequest)) :
    Keeps m (m.after answer requests) := by
  induction requests generalizing m with
  | nil => exact .refl m
  | cons r rest ih => exact (Keeps.environment answer m r.1 r.2).trans (ih _)

/-! ### Reading back -/

/-- **Certificates read back what was certified.** Whatever has been issued before, a canned answer
with a status is given a token; whatever is asked later, the platform opens the token, and the
certificate has that status for the request, and an unknown one for any other. An answer without a
status is given no token, and leaves the memory as it is. -/
theorem certificate_of_certify (answer : Answerer τ) (m : Memory τ) (id : RequestId)
    {canned : Canned} (fits : canned.FitsWord) (later : List (Nat × PlatformRequest)) :
    (∀ status, canned.status? = some status → ∃ token certificate,
      (m.certify id canned).2 = some token ∧
      ((m.certify id canned).1.after answer later).openCertificate token rootKey
        = .ok certificate ∧
      certificate.requestStatus id = .ok status ∧
      ∀ other, other ≠ id → certificate.requestStatus other = .ok .unknown) ∧
    (canned.status? = none → m.certify id canned = (m, none)) := by
  constructor
  · intro status told
    obtain ⟨fields, certified⟩ : ∃ fields, fieldsOf canned = some fields := by
      cases canned <;> first | exact ⟨_, rfl⟩ | cases told
    have issued : m.certify id canned = ({ m with
        issued := m.issued + 1
        certificates := (tokenOf (m.issued + 1), statusTree id fields) :: m.certificates },
          some (tokenOf (m.issued + 1))) := by
      rw [certify, certified]
    refine ⟨tokenOf (m.issued + 1), statusTree id fields, by rw [issued], ?_,
      requestStatus_statusTree id fits certified told,
      fun other ne => requestStatus_statusTree_of_ne id fields ne⟩
    -- The token is the latest, and belongs to the same certificate from then on.
    have number : (m.certify id canned).1.issued = m.issued + 1 := by rw [issued]
    have kept := (keeps_after answer (m.certify id canned).1 later).tokens (m.issued + 1)
      (Nat.le_of_eq number.symm)
    rw [openCertificate, if_pos rfl, kept, issued, List.lookup_cons_self, Option.elim_some]
  · intro silent
    cases canned <;> first | rfl | cases silent

/-- A rejection with the largest code, certified between two other certificates for one request. -/
theorem certificate_of_certify_largest_code :
    let answer : Answerer Unit := fun _ _ => ((), .pending)
    let target : CanisterId := ⟨[0, 1], by decide⟩
    let id : RequestId := ⟨List.replicate 32 7, rfl⟩
    let other : RequestId := ⟨List.replicate 32 8, rfl⟩
    let rejection : Rejection := ⟨.unknown 18446744073709551615, "no ✗", some "IC0503"⟩
    let m := (start ()).after answer [(0, .readState target id)]
    let certified := m.certify id (.reject rejection)
    Canned.FitsWord (.reject rejection) ∧
    ∃ token certificate, certified.2 = some token ∧
      (certified.1.after answer [(9, .readState target id)]).openCertificate token rootKey
        = .ok certificate ∧
      certificate.requestStatus id = .ok (.rejected rejection) ∧
      certificate.requestStatus other = .ok .unknown := by
  intro answer target id other rejection m certified
  have fits : Canned.FitsWord (.reject rejection) := by
    show 18446744073709551615 < Leb128.bound
    decide
  have ne : other ≠ id := by decide
  obtain ⟨token, certificate, issued, opened, read, others⟩ :=
    (certificate_of_certify answer m id fits [(9, .readState target id)]).1 _ rfl
  exact ⟨fits, token, certificate, issued, opened, read, others other ne⟩

end Memory

end Simulation

end CertifiedCalls
