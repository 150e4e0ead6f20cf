import CertifiedCalls.MessagePack.Item
import CertifiedCalls.Schema.Basic

/-! # Induction on schemas and items
What holds of a schema when it holds of the schemas inside it holds of every schema, and so for items.
The schemas of fields and payloads, and the items of sequences and maps, are reached as members of the
lists that hold them. -/

namespace CertifiedCalls

/-- **Induction on schemas.** -/
@[induction_eliminator, elab_as_elim]
theorem Schema.induction {motive : Schema → Prop} (any : motive .any) (null : motive .null)
    (bool : motive .bool) (nat : ∀ width, motive (.nat width)) (int : motive .int)
    (float : motive .float) (text : motive .text) (bytes : ∀ length, motive (.bytes length))
    (array : ∀ element, motive element → motive (.array element))
    (optional : ∀ inner, motive inner → motive (.optional inner))
    (record : ∀ fields, (∀ name schema, (name, schema) ∈ fields → motive schema) →
      motive (.record fields))
    (variant : ∀ cases, (∀ tag schema, (tag, some schema) ∈ cases → motive schema) →
      motive (.variant cases))
    (schema : Schema) : motive schema :=
  @Schema.rec motive (fun fields => ∀ name schema, (name, schema) ∈ fields → motive schema)
    (fun cases => ∀ tag schema, (tag, some schema) ∈ cases → motive schema)
    (fun field => motive field.2) (fun case => ∀ schema, case.2 = some schema → motive schema)
    (fun payload => ∀ schema, payload = some schema → motive schema)
    any null bool nat int float text bytes array optional record variant
    (fun _ _ mem => absurd mem List.not_mem_nil)
    (fun _ _ first others name schema mem => by
      rcases List.mem_cons.mp mem with rfl | later
      · exact first
      · exact others name schema later)
    (fun _ _ mem => absurd mem List.not_mem_nil)
    (fun _ _ first others tag schema mem => by
      rcases List.mem_cons.mp mem with rfl | later
      · exact first schema rfl
      · exact others tag schema later)
    (fun _ _ holds => holds) (fun _ _ holds => holds)
    (fun _ eq => absurd eq (by simp)) (fun _ holds _ eq => Option.some.inj eq ▸ holds) schema

/-- **Induction on items.** -/
@[induction_eliminator, elab_as_elim]
theorem MessagePack.Item.induction {motive : Item → Prop} (nil : motive .nil)
    (bool : ∀ b, motive (.bool b)) (int : ∀ i, motive (.int i)) (single : ∀ x, motive (.single x))
    (double : ∀ x, motive (.double x)) (text : ∀ s, motive (.text s))
    (brokenText : ∀ octets, motive (.brokenText octets)) (binary : ∀ octets, motive (.binary octets))
    (array : ∀ items, (∀ item ∈ items, motive item) → motive (.array items))
    (map : ∀ entries, (∀ entry ∈ entries, motive entry.1 ∧ motive entry.2) → motive (.map entries))
    (ext : ∀ type octets, motive (.ext type octets)) (item : Item) : motive item :=
  @Item.rec motive (fun items => ∀ item ∈ items, motive item)
    (fun entries => ∀ entry ∈ entries, motive entry.1 ∧ motive entry.2)
    (fun entry => motive entry.1 ∧ motive entry.2)
    nil bool int single double text brokenText binary array map ext
    (fun _ mem => absurd mem List.not_mem_nil)
    (fun _ _ first others => List.forall_mem_cons.mpr ⟨first, others⟩)
    (fun _ mem => absurd mem List.not_mem_nil)
    (fun _ _ first others => List.forall_mem_cons.mpr ⟨first, others⟩)
    (fun _ _ key value => ⟨key, value⟩) item

end CertifiedCalls
