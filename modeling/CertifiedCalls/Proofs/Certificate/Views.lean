import CertifiedCalls.Certificate.RequestStatus
import CertifiedCalls.Proofs.Certificate.Lookup
import CertifiedCalls.Proofs.MessagePack.RoundTrip
import CertifiedCalls.Proofs.Outcomes

/-! # Views of one certificate
A **view** of a hash tree has pruned parts in the places of some of its subtrees. Certificates that
are read at different times are views of one tree, each pruned in its own way. Whatever status a view
gives of a request is certified by the whole tree (`certifies_of_requestStatus`), so that two views
never contradict each other (`requestStatus_agree`). -/

namespace CertifiedCalls

namespace HashTree

/-- A tree is a **view** of another when it has pruned parts in the places of some subtrees. -/
inductive View : HashTree → HashTree → Prop
  /-- No content stays none. -/
  | empty : View .empty .empty
  /-- Both sides of a fork are viewed. -/
  | fork {l l' r r' : HashTree} (left : View l l') (right : View r r') :
    View (.fork l r) (.fork l' r')
  /-- A label stays, and its subtree is viewed. -/
  | labeled (label : Bytes) {s s' : HashTree} (subtree : View s s') :
    View (.labeled label s) (.labeled label s')
  /-- A leaf stays. -/
  | leaf (value : Bytes) : View (.leaf value) (.leaf value)
  /-- Any subtree may be pruned. -/
  | pruned (digest : Bytes) (s : HashTree) : View (.pruned digest) s

/-- A whole tree fills its views. -/
theorem View.fills {t s : HashTree} (h : View t s) (whole : s.Whole) : Fills t s := by
  induction h with
  | empty => exact .empty
  | fork _ _ left right => exact .fork (left whole.1) (right whole.2)
  | labeled label _ subtree => exact .labeled label (subtree whole)
  | leaf value => exact .leaf value
  | pruned digest s => exact .pruned digest whole

namespace FillsRow

variable {ts ts' : List HashTree}

/-- Filling in parts takes away no label and changes no order. -/
theorem labels_sublist (h : FillsRow ts ts') : (labels ts).Sublist (labels ts') := by
  induction h with
  | nil => exact .slnil
  | labeled label _ _ ih => exact ih.cons_cons label
  | leaf _ _ ih => exact ih
  | @pruned _ s _ _ ts' _ ih =>
    rw [labels_append]
    exact ih.trans (List.sublist_append_right (labels s.parts) (labels ts'))

/-- What is filled in to a row is a row. -/
theorem row (h : FillsRow ts ts') (row : Row ts') : Row ts := by
  refine ⟨?_, row.increasing.sublist h.labels_sublist⟩
  have entries := row.entries
  clear row
  induction h with
  | nil => exact List.forall_mem_nil _
  | labeled label _ _ ih =>
    exact List.forall_mem_cons.mpr ⟨.labeled label _, ih (List.forall_mem_cons.mp entries).2⟩
  -- A leaf would stand in what fills in the row, which has none.
  | leaf value _ _ => exact nomatch entries _ List.mem_cons_self
  | pruned digest _ _ ih =>
    exact List.forall_mem_cons.mpr ⟨.pruned digest, ih (List.forall_mem_append.mp entries).2⟩

end FillsRow

/-- What is filled in to a well-formed tree is well formed. -/
theorem Fills.wellFormed {t s : HashTree} (h : Fills t s) (formed : s.WellFormed) : t.WellFormed := by
  induction h with
  | empty | leaf | pruned => trivial
  | labeled label _ ih => exact ih formed
  | fork left right ihl ihr =>
    obtain ⟨row, left_formed, right_formed⟩ := formed
    exact ⟨(Fills.fork left right).parts.row row, ihl left_formed, ihr right_formed⟩

/-- A value that is found in a view of a tree is a leaf of the tree. -/
theorem View.hasLeaf {t s : HashTree} (h : View t s) (whole : s.Whole) (formed : s.WellFormed)
    {path : List Bytes} {value : Bytes} (found : t.lookup path = .found value) :
    HasLeaf s path value :=
  have fills := h.fills whole
  hasLeaf_of_lookup_eq_found (fills.wellFormed formed) found ⟨fills, formed⟩

/-! ### Statuses -/

/-- The **name** of a status, which its leaf spells, if it has a leaf. -/
def nameOf : RequestStatus → Option String
  | .unknown => none
  | .received => some "received"
  | .processing => some "processing"
  | .done => some "done"
  | .replied _ => some "replied"
  | .rejected _ => some "rejected"

/-- A tree **certifies the rejection** of a request when its leaves hold the reject code, the message
and, where there is one, the error code. -/
structure CertifiesRejection (t : HashTree) (id : RequestId) (r : Rejection) : Prop where
  /-- The number of the reject code. -/
  code : ∃ octets n, HasLeaf t (statusPath id .rejectCode) octets ∧ Leb128.read octets = some n ∧
    r.code = .ofCode n
  /-- The message. -/
  message : HasLeaf t (statusPath id .rejectMessage) (Bytes.ofText r.message)
  /-- The error code. -/
  errorCode : ∀ e, r.errorCode = some e → HasLeaf t (statusPath id .errorCode) (Bytes.ofText e)

/-- A tree **certifies the status** of a request when a leaf spells its name and others hold what it
carries. -/
structure Certifies (t : HashTree) (id : RequestId) (s : RequestStatus) : Prop where
  /-- A leaf spells the name of the status. -/
  named : ∃ name, nameOf s = some name ∧ HasLeaf t (statusPath id .status) (Bytes.ofText name)
  /-- A leaf holds the reply. -/
  reply : ∀ octets, s = .replied octets → HasLeaf t (statusPath id .reply) octets
  /-- Leaves hold the rejection. -/
  rejection : ∀ r, s = .rejected r → CertifiesRejection t id r

/-- Two rejections **agree** when they differ at most in an error code that one of them lacks. -/
structure RejectionsAgree (r r' : Rejection) : Prop where
  /-- The reject codes are the same. -/
  code : r.code = r'.code
  /-- The messages are the same. -/
  message : r.message = r'.message
  /-- The error codes are the same where both are there. -/
  errorCode : r.errorCode = none ∨ r'.errorCode = none ∨ r.errorCode = r'.errorCode

/-- Two statuses **agree** when they are the same, or rejections that agree. -/
inductive StatusesAgree : RequestStatus → RequestStatus → Prop
  /-- The request has been received. -/
  | received : StatusesAgree .received .received
  /-- The canister is at work on it. -/
  | processing : StatusesAgree .processing .processing
  /-- It ended, and what with is no longer available. -/
  | done : StatusesAgree .done .done
  /-- It ended with a reply, the same in both. -/
  | replied (reply : Bytes) : StatusesAgree (.replied reply) (.replied reply)
  /-- It ended with a rejection. -/
  | rejected {r r' : Rejection} (agree : RejectionsAgree r r') :
    StatusesAgree (.rejected r) (.rejected r')

section Certified

variable {t : HashTree} (formed : t.WellFormed) {id : RequestId}

include formed

/-- A field of a status has one text only. -/
theorem text_unique {field : StatusField} {a b : String}
    (left : HasLeaf t (statusPath id field) (Bytes.ofText a))
    (right : HasLeaf t (statusPath id field) (Bytes.ofText b)) : a = b := by
  have same := congrArg Bytes.toText? (left.unique formed right)
  rw [Bytes.toText?_ofText, Bytes.toText?_ofText] at same
  exact Option.some.inj same

/-- Rejections that one tree certifies agree. -/
theorem CertifiesRejection.agree {r r' : Rejection} (h : CertifiesRejection t id r)
    (h' : CertifiesRejection t id r') : RejectionsAgree r r' := by
  refine ⟨?_, text_unique formed h.message h'.message, ?_⟩
  · obtain ⟨octets, n, leaf, read, code⟩ := h.code
    obtain ⟨octets', n', leaf', read', code'⟩ := h'.code
    obtain rfl := leaf.unique formed leaf'
    obtain rfl := Option.some.inj (read.symm.trans read')
    exact code.trans code'.symm
  · cases e : r.errorCode with
    | none => exact .inl rfl
    | some a =>
      cases e' : r'.errorCode with
      | none => exact .inr (.inl rfl)
      | some b =>
        obtain rfl := text_unique formed (h.errorCode a e) (h'.errorCode b e')
        exact .inr (.inr rfl)

/-- Statuses of a request that one tree certifies agree. -/
theorem Certifies.agree {s s' : RequestStatus} (h : Certifies t id s) (h' : Certifies t id s') :
    StatusesAgree s s' := by
  obtain ⟨name, spelled, leaf⟩ := h.named
  obtain ⟨name', spelled', leaf'⟩ := h'.named
  -- The tree has one leaf for the name, so both statuses have the same constructor.
  obtain rfl := text_unique formed leaf leaf'
  have same : nameOf s = nameOf s' := spelled.trans spelled'.symm
  cases s <;> cases s' <;> simp [nameOf] at same spelled
  case received => exact .received
  case processing => exact .processing
  case done => exact .done
  case replied reply reply' =>
    obtain rfl := (h.reply reply rfl).unique formed (h'.reply reply' rfl)
    exact .replied reply
  case rejected r r' => exact .rejected ((h.rejection r rfl).agree formed (h'.rejection r' rfl))

end Certified

/-! ### What a view certifies -/

section Views

variable {t whole : HashTree} {id : RequestId}

/-- The text of a field that is read from octets has them as its encoding. -/
theorem eq_ofText_of_fieldText {field : StatusField} {octets : Bytes} {text : String}
    (read : fieldText field octets = .ok text) : octets = Bytes.ofText text := by
  rw [fieldText] at read
  cases found : octets.toText? with
  | none =>
    rw [found] at read
    exact nomatch read
  | some s =>
    rw [found] at read
    obtain rfl := Except.ok.inj read
    exact Bytes.eq_ofText_of_toText? found

/-- The reply that a tree shows stands in its field. -/
theorem statusField_of_requestReply {reply : Bytes} (h : t.requestReply id = .ok reply) :
    t.statusField id .reply = .found reply := by
  rw [requestReply] at h
  split at h
  · rename_i found
    obtain rfl := Except.ok.inj h
    exact found
  · exact nomatch h

/-- What stands in the fields of the rejection that a tree shows. -/
theorem statusFields_of_requestRejection {r : Rejection} (h : t.requestRejection id = .ok r) :
    (∃ octets n, t.statusField id .rejectCode = .found octets ∧ Leb128.read octets = some n ∧
      r.code = .ofCode n) ∧
    t.statusField id .rejectMessage = .found (Bytes.ofText r.message) ∧
    ∀ e, r.errorCode = some e → t.statusField id .errorCode = .found (Bytes.ofText e) := by
  rw [requestRejection] at h
  split at h
  · rename_i octets found
    obtain ⟨n, code_read, h⟩ := exists_of_bind_eq_ok h
    have read : Leb128.read octets = some n := by
      cases read : Leb128.read octets with
      | none =>
        rw [read] at code_read
        exact nomatch code_read
      | some n' =>
        rw [read] at code_read
        exact congrArg some (Except.ok.inj code_read)
    dsimp only at h
    split at h
    · rename_i text text_found
      obtain ⟨message, message_read, h⟩ := exists_of_bind_eq_ok h
      rw [eq_ofText_of_fieldText message_read] at text_found
      split at h
      · rename_i special special_found
        obtain ⟨errorCode, special_read, h⟩ := exists_of_bind_eq_ok h
        obtain ⟨e, special_text, rfl⟩ := exists_of_map_eq_ok special_read
        obtain rfl := Except.ok.inj h
        rw [eq_ofText_of_fieldText special_text] at special_found
        exact ⟨⟨octets, n, found, read, rfl⟩, text_found,
          fun _ some => Option.some.inj some ▸ special_found⟩
      -- Without a field for it, the rejection has no error code.
      · obtain rfl := Except.ok.inj h
        exact ⟨⟨octets, n, found, read, rfl⟩, text_found, nofun⟩
    · exact nomatch h
  · exact nomatch h

/-- The status that a name stands for has this name, and carries what the fields hold. -/
theorem of_statusNamed {name : String} {s : RequestStatus} (h : t.statusNamed id name = .ok s) :
    nameOf s = some name ∧ (∀ reply, s = .replied reply → t.requestReply id = .ok reply) ∧
      ∀ r, s = .rejected r → t.requestRejection id = .ok r := by
  unfold statusNamed at h
  split at h
  · rename_i received
    obtain rfl := Except.ok.inj h
    exact ⟨congrArg some received.symm, nofun, nofun⟩
  split at h
  · rename_i processing
    obtain rfl := Except.ok.inj h
    exact ⟨congrArg some processing.symm, nofun, nofun⟩
  split at h
  · rename_i done
    obtain rfl := Except.ok.inj h
    exact ⟨congrArg some done.symm, nofun, nofun⟩
  split at h
  · rename_i replied
    obtain ⟨reply, read, rfl⟩ := exists_of_map_eq_ok h
    exact ⟨congrArg some replied.symm, fun _ e => RequestStatus.replied.inj e ▸ read, nofun⟩
  split at h
  · rename_i rejected
    obtain ⟨r, read, rfl⟩ := exists_of_map_eq_ok h
    exact ⟨congrArg some rejected.symm, nofun, fun _ e => RequestStatus.rejected.inj e ▸ read⟩
  · exact nomatch h

/-- A status other than **unknown** stands in the field of its name, and carries what the other
fields hold. -/
theorem statusFields_of_requestStatus {s : RequestStatus} (h : t.requestStatus id = .ok s)
    (known : s ≠ .unknown) :
    (∃ name, nameOf s = some name ∧ t.statusField id .status = .found (Bytes.ofText name)) ∧
    (∀ reply, s = .replied reply → t.requestReply id = .ok reply) ∧
    ∀ r, s = .rejected r → t.requestRejection id = .ok r := by
  rw [requestStatus] at h
  split at h
  · rename_i octets found
    obtain ⟨name, read, h⟩ := exists_of_bind_eq_ok h
    obtain ⟨spelled, carried⟩ := of_statusNamed h
    rw [eq_ofText_of_fieldText read] at found
    exact ⟨⟨name, spelled, found⟩, carried⟩
  · exact nomatch h
  · exact absurd (Except.ok.inj h).symm known

/-- A status that a view gives is **certified by the whole tree**. -/
theorem certifies_of_requestStatus (view : View t whole) (all : whole.Whole)
    (formed : whole.WellFormed) {s : RequestStatus} (h : t.requestStatus id = .ok s)
    (known : s ≠ .unknown) : Certifies whole id s := by
  have leaf {field : StatusField} {octets : Bytes} (found : t.statusField id field = .found octets) :
      HasLeaf whole (statusPath id field) octets := view.hasLeaf all formed found
  obtain ⟨⟨name, spelled, named⟩, reply, rejection⟩ := statusFields_of_requestStatus h known
  refine ⟨⟨name, spelled, leaf named⟩, fun octets e => ?_, fun r e => ?_⟩
  · exact leaf (statusField_of_requestReply (reply octets e))
  · obtain ⟨⟨octets, n, found, read, code⟩, message, errorCode⟩ :=
      statusFields_of_requestRejection (rejection r e)
    exact ⟨⟨octets, n, leaf found, read, code⟩, leaf message, fun e some => leaf (errorCode e some)⟩

/-- **Two views of one tree never contradict each other**: the statuses that they give of a request,
if both give one that is known, agree, and the whole tree certifies each of them. -/
theorem requestStatus_agree (formed : whole.WellFormed) (all : whole.Whole) (id : RequestId)
    {t t' : HashTree} (view : View t whole) (view' : View t' whole) {s s' : RequestStatus}
    (h : t.requestStatus id = .ok s) (h' : t'.requestStatus id = .ok s') (known : s ≠ .unknown)
    (known' : s' ≠ .unknown) :
    StatusesAgree s s' ∧ Certifies whole id s ∧ Certifies whole id s' := by
  have certified := certifies_of_requestStatus view all formed h known
  have certified' := certifies_of_requestStatus view' all formed h' known'
  exact ⟨certified.agree formed certified', certified, certified'⟩

/-- A rejection of which one view has pruned the error code, and the other what stands beside it. -/
theorem requestStatus_agree_rejected :
    let id : RequestId := ⟨List.replicate 32 7, rfl⟩
    let special : HashTree := .labeled (Bytes.ofText "error_code") (.leaf (Bytes.ofText "IC0503"))
    let code : HashTree := .labeled (Bytes.ofText "reject_code") (.leaf [4])
    let text : HashTree := .labeled (Bytes.ofText "reject_message") (.leaf (Bytes.ofText "no"))
    let name : HashTree := .labeled (Bytes.ofText "status") (.leaf (Bytes.ofText "rejected"))
    let time : HashTree := .labeled (Bytes.ofText "time") (.leaf [9])
    let under (fields : HashTree) : HashTree := .labeled statusRoot (.labeled id.bytes fields)
    let whole : HashTree := .fork (under (.fork (.fork special code) (.fork text name))) time
    let t : HashTree := .fork (under (.fork (.fork (.pruned [1]) code) (.fork text name))) time
    let t' : HashTree := .fork (under (.fork (.fork special code) (.fork text name))) (.pruned [2])
    t.requestStatus id = .ok (.rejected ⟨.canisterReject, "no", none⟩) ∧
      t'.requestStatus id = .ok (.rejected ⟨.canisterReject, "no", some "IC0503"⟩) ∧
      StatusesAgree (.rejected ⟨.canisterReject, "no", none⟩)
        (.rejected ⟨.canisterReject, "no", some "IC0503"⟩) ∧
      Certifies whole id (.rejected ⟨.canisterReject, "no", none⟩) := by
  intro id special code text name time under whole t t'
  have read : t.requestStatus id = .ok (.rejected ⟨.canisterReject, "no", none⟩) := by rfl
  have read' : t'.requestStatus id = .ok (.rejected ⟨.canisterReject, "no", some "IC0503"⟩) := by rfl
  have row (ts : List HashTree) (all : ∀ u ∈ ts, ∃ l s, u = .labeled l s)
      (increasing : (labels ts).Pairwise fun a b => a.before b = true) : Row ts := by
    refine ⟨fun u mem => ?_, increasing⟩
    obtain ⟨l, s, rfl⟩ := all u mem
    exact .labeled l s
  have left : Row [special, code] := row _ (by simp [special, code]) (by decide)
  have right : Row [text, name] := row _ (by simp [text, name]) (by decide)
  have fields : Row [special, code, text, name] :=
    row _ (by simp [special, code, text, name]) (by decide)
  have outer : Row [under (.fork (.fork special code) (.fork text name)), time] :=
    row _ (by simp [under, time]) (by decide)
  have formed : whole.WellFormed :=
    ⟨outer, ⟨fields, ⟨left, trivial, trivial⟩, right, trivial, trivial⟩, trivial⟩
  have all : whole.Whole := ⟨⟨⟨trivial, trivial⟩, trivial, trivial⟩, trivial⟩
  have field (label value : Bytes) :
      View (.labeled label (.leaf value)) (.labeled label (.leaf value)) := .labeled label (.leaf value)
  have view : View t whole := .fork (.labeled _ (.labeled _
    (.fork (.fork (.pruned _ _) (field _ _)) (.fork (field _ _) (field _ _))))) (field _ _)
  have view' : View t' whole := .fork (.labeled _ (.labeled _
    (.fork (.fork (field _ _) (field _ _)) (.fork (field _ _) (field _ _))))) (.pruned _ _)
  obtain ⟨agree, certified, _⟩ :=
    requestStatus_agree formed all id view view' read read' (by decide) (by decide)
  exact ⟨read, read', agree, certified⟩

end Views

end HashTree

end CertifiedCalls
