import CertifiedCalls.Value.Display

/-! # What is elided from values
Two values are **alike** when they differ in nothing but the octets of long byte strings. Alike values
are shown by the same text (`Alike.toText_eq`). A value with a hole, a **frame**, is shown by the text
of what fills it between two texts of its own (`Frame.toText_fill`), so a long byte string adds nothing
to the text of a value but its length. -/

namespace CertifiedCalls.Value

/-! ### Alike values -/

mutual

/-- Values are **alike** when only long byte strings in them differ, and not in their lengths. -/
inductive Alike : Value → Value → Prop
  /-- A value is like itself. -/
  | refl (v : Value) : Alike v v
  /-- Long byte strings of one length are alike. -/
  | bytes {octets others : Bytes} (long : shownOctets < octets.length)
    (length : octets.length = others.length) : Alike (.bytes octets) (.bytes others)
  /-- Sequences of alike items are alike. -/
  | array {items items' : List Value} (each : ItemsAlike items items') :
    Alike (.array items) (.array items')
  /-- Records with alike fields are alike. -/
  | record {fields fields' : Fields Value} (each : FieldsAlike fields fields') :
    Alike (.record fields) (.record fields')
  /-- Alike payloads of one tag are alike. -/
  | payload {v w : Value} (tag : String) (here : Alike v w) :
    Alike (.variant tag (some v)) (.variant tag (some w))

/-- Items are **alike** one by one. -/
inductive ItemsAlike : List Value → List Value → Prop
  /-- There are no items. -/
  | nil : ItemsAlike [] []
  /-- The first ones are alike, and so are the later ones. -/
  | cons {v w : Value} {rest rest' : List Value} (here : Alike v w) (later : ItemsAlike rest rest') :
    ItemsAlike (v :: rest) (w :: rest')

/-- Fields are **alike** one by one, under the same names. -/
inductive FieldsAlike : List (String × Value) → List (String × Value) → Prop
  /-- There are no fields. -/
  | nil : FieldsAlike [] []
  /-- The first ones are alike, and so are the later ones. -/
  | cons {v w : Value} {rest rest' : List (String × Value)} (name : String) (here : Alike v w)
    (later : FieldsAlike rest rest') : FieldsAlike ((name, v) :: rest) ((name, w) :: rest')

end

/-- Only its length shows of a long byte string. -/
theorem showBytes_of_long {octets : Bytes} (long : shownOctets < octets.length) :
    showBytes octets = "<" ++ toString octets.length ++ " bytes>" := if_pos long

mutual

/-- **Alike values are shown by the same text.** -/
theorem Alike.toText_eq {v w : Value} (h : Alike v w) : v.toText = w.toText := by
  match h with
  | .refl v => rfl
  | .bytes long length =>
    simp only [toText]
    rw [showBytes_of_long long, showBytes_of_long (length ▸ long), length]
  | .array each => simp only [toText, each.itemTexts_eq]
  | .record each => simp only [toText, each.fieldTexts_eq]
  | .payload tag here => simp only [toText, here.toText_eq]

/-- Alike items are shown by the same texts. -/
theorem ItemsAlike.itemTexts_eq {items items' : List Value} (h : ItemsAlike items items') :
    itemTexts items = itemTexts items' := by
  match h with
  | .nil => rfl
  | .cons here later => simp only [itemTexts, here.toText_eq, later.itemTexts_eq]

/-- Alike fields are shown by the same texts. -/
theorem FieldsAlike.fieldTexts_eq {fields fields' : List (String × Value)}
    (h : FieldsAlike fields fields') : fieldTexts fields = fieldTexts fields' := by
  match h with
  | .nil => rfl
  | .cons name here later => simp only [fieldTexts, here.toText_eq, later.fieldTexts_eq]

end

/-! ### Texts between commas -/

/-- The texts in front of another, each with a comma behind it. -/
def textBefore : List String → String
  | [] => ""
  | s :: rest => s ++ ", " ++ textBefore rest

/-- The texts behind another, each with a comma in front of it. -/
def textAfter : List String → String
  | [] => ""
  | s :: rest => ", " ++ s ++ textAfter rest

/-- The first of some texts is followed by those behind it. -/
theorem intercalate_cons (s : String) (after : List String) :
    String.intercalate ", " (s :: after) = s ++ textAfter after := by
  induction after generalizing s with
  | nil => simp [textAfter]
  | cons next rest ih => simp [ih next, textAfter, String.append_assoc]

/-- A text among others stands between those in front of it and those behind it. -/
theorem intercalate_append_cons (before : List String) (s : String) (after : List String) :
    String.intercalate ", " (before ++ s :: after) = textBefore before ++ s ++ textAfter after := by
  induction before with
  | nil => simp [intercalate_cons, textBefore]
  | cons first rest ih =>
    rw [List.cons_append, String.intercalate_cons_of_ne_nil (by simp), ih]
    simp [textBefore, String.append_assoc]

theorem itemTexts_append (items others : List Value) :
    itemTexts (items ++ others) = itemTexts items ++ itemTexts others := by
  induction items with
  | nil => rfl
  | cons v rest ih => simp [itemTexts, ih]

theorem fieldTexts_append (fields others : List (String × Value)) :
    fieldTexts (fields ++ others) = fieldTexts fields ++ fieldTexts others := by
  induction fields with
  | nil => rfl
  | cons field rest ih => simp [fieldTexts, ih]

/-! ### Frames -/

/-- A **frame** is a value with a hole in it. -/
inductive Frame where
  /-- Nothing but a hole. -/
  | hole
  /-- The hole is in an item of a sequence. -/
  | item (before : List Value) (here : Frame) (after : List Value)
  /-- The hole is in a field of a record. -/
  | field (before : List (String × Value)) (name : String) (here : Frame)
    (after : List (String × Value))
  /-- The hole is in the payload of a tag. -/
  | payload (tag : String) (here : Frame)

namespace Frame

/-- The value that comes of **filling** the hole. -/
def fill : Frame → Value → Value
  | .hole, v => v
  | .item before here after, v => .array (before ++ here.fill v :: after)
  | .field before name here after, v => .record (before ++ (name, here.fill v) :: after)
  | .payload tag here, v => .variant tag (some (here.fill v))

/-- The text in front of the hole. -/
def front : Frame → String
  | .hole => ""
  | .item before here _ => "[" ++ textBefore (itemTexts before) ++ here.front
  | .field before name here _ =>
    "\x7b" ++ textBefore (fieldTexts before) ++ (name ++ ": ") ++ here.front
  | .payload tag here => tag ++ "(" ++ here.front

/-- The text behind the hole. -/
def back : Frame → String
  | .hole => ""
  | .item _ here after => here.back ++ textAfter (itemTexts after) ++ "]"
  | .field _ _ here after => here.back ++ textAfter (fieldTexts after) ++ "\x7d"
  | .payload _ here => here.back ++ ")"

/-- **What fills the hole is shown between the texts of the frame**, which do not depend on it. -/
theorem toText_fill (frame : Frame) (v : Value) :
    (frame.fill v).toText = frame.front ++ v.toText ++ frame.back := by
  induction frame with
  | hole => simp [fill, front, back]
  | item before here after ih =>
    simp only [fill, toText, itemTexts_append, itemTexts, intercalate_append_cons, ih, front, back,
      String.append_assoc]
  | field before name here after ih =>
    simp only [fill, toText, fieldTexts_append, fieldTexts, intercalate_append_cons, ih, front, back,
      String.append_assoc]
  | payload tag here ih => simp only [fill, toText, ih, front, back, String.append_assoc]

end Frame

end CertifiedCalls.Value
