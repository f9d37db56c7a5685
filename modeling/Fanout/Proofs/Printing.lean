import Mathlib.Tactic.TFAE
import Fanout.Proofs.Building
import Fanout.Proofs.Spelling

/-! # Texts of messages

Without floats a value can be read off any of its texts: a bracket, a quote, a tag or a digit
tells its kind, and every part tells where it ends. So the texts of two messages are equal exactly
when the messages are.
-/
namespace Fanout

open Text

namespace Value

variable {v w : Value} {n : Nat} {r s : List Char}

/-- There is no float at any depth. -/
inductive Floatless : Value → Prop where
  | null : Floatless .null
  | bool (b : Bool) : Floatless (.bool b)
  | whole (n : Whole) : Floatless (.number (.whole n))
  | string (s : String) : Floatless (.string s)
  | array {items : List Value} : (∀ v ∈ items, Floatless v) → Floatless (.array items)
  | object {fields : List (String × Value)} : (∀ f ∈ fields, Floatless f.2) →
    Floatless (.object fields)

theorem Floatless.unsigned_eq (h : v.Floatless) : v.unsigned = v := by
  induction h with
  | array _ ih =>
    rw [unsigned, unsignedItems_eq_map]
    exact congrArg _ ((List.map_congr_left ih).trans (List.map_id _))
  | object _ ih =>
    rw [unsigned, unsignedFields_eq_map]
    refine congrArg _ ((List.map_congr_left fun f hf => ?_).trans (List.map_id _))
    rw [ih f hf]
    rfl
  | _ => rfl

theorem Floatless.same_iff (hv : v.Floatless) (hw : w.Floatless) : v.same w = true ↔ v = w := by
  rw [same_iff_unsigned_eq, hv.unsigned_eq, hw.unsigned_eq]

theorem sign_append_ne (a b : Nat) (r s : List Char) :
    '-' :: Nat.toDigits 10 a ++ r ≠ Nat.toDigits 10 b ++ s := by
  intro heq
  cases hb : Nat.toDigits 10 b with
  | nil => exact Nat.toDigits_ne_nil hb
  | cons c cs =>
    have hc : c ∈ Nat.toDigits 10 b := hb ▸ List.mem_cons_self
    rw [hb] at heq
    rw [← (List.cons.inj heq).1] at hc
    exact absurd (isSome_hexDigit?_of_mem (by decide) (by decide) hc) (by decide)

theorem whole_append_inj {m n : Whole} (hr : Ends r) (hs : Ends s)
    (h : (Numeral.whole m).chars ++ r = (Numeral.whole n).chars ++ s) : m = n ∧ r = s := by
  have hdigits (heq : Nat.toDigits 10 m.val.natAbs ++ r = Nat.toDigits 10 n.val.natAbs ++ s)
      (hsign : m.val < 0 ↔ n.val < 0) : m = n ∧ r = s := by
    obtain ⟨habs, hrs⟩ := toDigits_append_inj (by decide) (by decide) hr hs heq
    have hval : m.val = n.val := by omega
    cases m
    cases n
    cases hval
    exact ⟨rfl, hrs⟩
  rw [Numeral.chars, Numeral.chars] at h
  split at h <;> split at h
  · rename_i hm hn
    exact hdigits (List.cons.inj h).2 (iff_of_true hm hn)
  · exact absurd h (sign_append_ne _ _ _ _)
  · exact absurd h.symm (sign_append_ne _ _ _ _)
  · rename_i hm hn
    exact hdigits h (iff_of_false hm hn)

/-- A way to write values, at any depth of indentation, from which each kind of value can be read
if its parts can. -/
structure Legible (text : Nat → Value → List Char) : Prop where
  kind (level : Nat) {v w : Value} {r s : List Char} : v.Floatless → w.Floatless →
    text level v ++ r = text level w ++ s → v.kind = w.kind
  bool (level : Nat) {b c : Bool} {r s : List Char} :
    text level (.bool b) ++ r = text level (.bool c) ++ s → b = c ∧ r = s
  whole (level : Nat) {m n : Whole} {r s : List Char} : Ends r → Ends s →
    text level (.number (.whole m)) ++ r = text level (.number (.whole n)) ++ s → m = n ∧ r = s
  string (level : Nat) {a b : String} {r s : List Char} :
    text level (.string a) ++ r = text level (.string b) ++ s → a = b ∧ r = s
  array (level : Nat) {xs ys : List Value} {r s : List Char} :
    (∀ v ∈ xs, v.Floatless ∧ Tells (text (level + 1)) Floatless v) → (∀ w ∈ ys, w.Floatless) →
    text level (.array xs) ++ r = text level (.array ys) ++ s → xs = ys ∧ r = s
  object (level : Nat) {fs gs : List (String × Value)} {r s : List Char} :
    (∀ f ∈ fs, f.2.Floatless ∧ Tells (text (level + 1)) Floatless f.2) →
    (∀ g ∈ gs, g.2.Floatless) →
    text level (.object fs) ++ r = text level (.object gs) ++ s → fs = gs ∧ r = s

/-- A legible text tells the value and where it ends, since its parts do. -/
theorem Legible.tells {text : Nat → Value → List Char} (h : Legible text) (hv : v.Floatless)
    (level : Nat) : Tells (text level) Floatless v := by
  induction hv generalizing level with
  | null =>
    intro w hw r s _ _ heq
    have hkind := h.kind level .null hw heq
    cases hw with
    | null => exact ⟨rfl, List.append_cancel_left heq⟩
    | _ => simp [Value.kind] at hkind
  | bool b =>
    intro w hw r s _ _ heq
    have hkind := h.kind level (.bool b) hw heq
    cases hw with
    | bool c => exact (h.bool level heq).imp_left (congrArg _)
    | _ => simp [Value.kind] at hkind
  | whole m =>
    intro w hw r s hr hs heq
    have hkind := h.kind level (.whole m) hw heq
    cases hw with
    | whole n =>
      exact (h.whole level hr hs heq).imp_left (congrArg fun n => Value.number (.whole n))
    | _ => simp [Value.kind] at hkind
  | string a =>
    intro w hw r s _ _ heq
    have hkind := h.kind level (.string a) hw heq
    cases hw with
    | string b => exact (h.string level heq).imp_left (congrArg _)
    | _ => simp [Value.kind] at hkind
  | array hitems ih =>
    intro w hw r s _ _ heq
    have hkind := h.kind level (.array hitems) hw heq
    cases hw with
    | array hw =>
      have hparts := fun v hv => And.intro (hitems v hv) (ih v hv (level + 1))
      exact (h.array level hparts hw heq).imp_left (congrArg _)
    | _ => simp [Value.kind] at hkind
  | object hfields ih =>
    intro w hw r s _ _ heq
    have hkind := h.kind level (.object hfields) hw heq
    cases hw with
    | object hw =>
      have hparts := fun f hf => And.intro (hfields f hf) (ih f hf (level + 1))
      exact (h.object level hparts hw heq).imp_left (congrArg _)
    | _ => simp [Value.kind] at hkind

def fieldText (key : String → List Char) (between : List Char) (text : Value → List Char)
    (f : String × Value) : List Char :=
  key f.1 ++ (between ++ text f.2)

theorem tells_fieldText {key : String → List Char} {between : List Char}
    {text : Value → List Char} {f : String × Value}
    (hkey : ∀ k l r s, key k ++ r = key l ++ s → k = l ∧ r = s)
    (hvalue : Tells text Floatless f.2) :
    Tells (fieldText key between text) (·.2.Floatless) f := by
  intro g hg r s hr hs h
  rw [fieldText, fieldText, List.append_assoc, List.append_assoc, List.append_assoc,
    List.append_assoc] at h
  obtain ⟨hk, htail⟩ := hkey _ _ _ _ h
  obtain ⟨hv, hrs⟩ := hvalue g.2 hg r s hr hs (List.append_cancel_left htail)
  exact ⟨Prod.ext hk hv, hrs⟩

theorem compactItems_eq : ∀ items : List Value,
    compactItems items = separated [] compactChars items
  | [] => rfl
  | [v] => (List.append_nil _).symm
  | v :: w :: rest => by
    rw [compactItems, compactItems_eq (w :: rest)]
    rfl

def compactField : String × Value → List Char := fieldText compactString [':'] compactChars

theorem compactFields_eq : ∀ fields : List (String × Value),
    compactFields fields = separated [] compactField fields
  | [] => rfl
  | [(k, v)] => (List.append_nil _).symm
  | (k, v) :: g :: rest => by
    rw [compactFields, compactFields_eq (g :: rest), separated, compactField, fieldText]
    simp [separated, fieldText]

def compactKind : Char → String
  | 'n' => "null"
  | 't' | 'f' => "bool"
  | '"' => "string"
  | '[' => "array"
  | '\x7b' => "object"
  | _ => "number"

theorem compactKind_of_mark {c : Char} (h : c = '-' ∨ c.isDigit = true) :
    compactKind c = "number" := by
  unfold compactKind
  split <;> first | rfl | exact absurd h (by decide)

theorem Floatless.compactChars_eq_cons (h : v.Floatless) :
    ∃ c cs, v.compactChars = c :: cs ∧ c ≠ ']' ∧ compactKind c = v.kind := by
  cases h with
  | whole n =>
    have hmark : ∃ c cs, (Numeral.whole n).chars = c :: cs ∧ (c = '-' ∨ c.isDigit = true) := by
      rw [Numeral.chars]
      split
      · exact ⟨_, _, rfl, .inl rfl⟩
      · obtain ⟨c, cs, hcs⟩ := List.exists_cons_of_ne_nil (Nat.toDigits_ne_nil (b := 10))
        refine ⟨c, cs, hcs, .inr ?_⟩
        exact Nat.isDigit_of_mem_toDigits (by decide) (by decide) (hcs ▸ List.mem_cons_self)
    obtain ⟨c, cs, hcs, hc⟩ := hmark
    refine ⟨c, cs, hcs, ?_, compactKind_of_mark hc⟩
    rintro rfl
    exact absurd hc (by decide)
  | bool b => cases b <;> exact ⟨_, _, rfl, by decide, rfl⟩
  | _ => exact ⟨_, _, rfl, by decide, rfl⟩

theorem Floatless.compactChars_ne_close (h : v.Floatless) (r s : List Char) :
    v.compactChars ++ r ≠ ']' :: s := by
  obtain ⟨c, cs, hcs, hc, -⟩ := h.compactChars_eq_cons
  rw [hcs]
  exact fun heq => hc (List.cons.inj heq).1

theorem legible_compactChars : Legible fun _ => compactChars where
  kind _ {_ _ _ _} hv hw heq := by
    obtain ⟨c, cs, hcs, -, hc⟩ := hv.compactChars_eq_cons
    obtain ⟨d, ds, hds, -, hd⟩ := hw.compactChars_eq_cons
    rw [hcs, hds] at heq
    rw [← hc, ← hd, (List.cons.inj heq).1]
  bool _ {b c _ _} heq := by
    cases b <;> cases c
    · exact ⟨rfl, List.append_cancel_left heq⟩
    · exact absurd (List.cons.inj heq).1 (by decide)
    · exact absurd (List.cons.inj heq).1 (by decide)
    · exact ⟨rfl, List.append_cancel_left heq⟩
  whole _ {_ _ _ _} := whole_append_inj
  string _ {_ _ _ _} := compactString_append_inj
  array _ {xs ys r s} hxs hys heq := by
    rw [compactChars, compactChars, compactItems_eq, compactItems_eq] at heq
    simp only [List.cons_append, List.append_assoc, List.cons.injEq, true_and] at heq
    exact separated_append_inj (by decide) (by decide)
      (fun _ r s ha => ha.compactChars_ne_close r s) hxs hys heq
  object _ {fs gs r s} hfs hgs heq := by
    rw [compactChars, compactChars, compactFields_eq, compactFields_eq] at heq
    simp only [List.cons_append, List.append_assoc, List.cons.injEq, true_and] at heq
    refine separated_append_inj (by decide) (by decide) ?_ ?_ hgs heq
    · exact fun f r s _ heq => absurd (List.cons.inj heq).1 (by decide)
    · exact fun f hf => ⟨(hfs f hf).1,
        tells_fieldText (fun _ _ _ _ => compactString_append_inj) (hfs f hf).2⟩

theorem taggedItems_eq : ∀ items : List Value,
    taggedItems items = separated [' '] taggedChars items
  | [] => rfl
  | [v] => (List.append_nil _).symm
  | v :: w :: rest => by
    rw [taggedItems, taggedItems_eq (w :: rest)]
    simp [separated]

def taggedField (text : Value → List Char) : String × Value → List Char :=
  fieldText (quotedChars ·.toList) [':', ' '] text

theorem taggedFields_eq : ∀ fields : List (String × Value),
    taggedFields fields = separated [' '] (taggedField taggedChars) fields
  | [] => rfl
  | [(k, v)] => by
    rw [taggedFields]
    simp [separated, taggedField, fieldText]
  | (k, v) :: g :: rest => by
    rw [taggedFields, taggedFields_eq (g :: rest)]
    simp [separated, taggedField, fieldText]

theorem tells_taggedField {text : Value → List Char} {f : String × Value}
    (h : Tells text Floatless f.2) : Tells (taggedField text) (·.2.Floatless) f :=
  tells_fieldText (fun _ _ _ _ heq => (quotedChars_append_inj heq).imp_left String.toList_inj.mp) h

def tagKind : List Char → String
  | 'N' :: 'u' :: 'l' :: _ => "null"
  | 'B' :: _ => "bool"
  | 'S' :: _ => "string"
  | 'A' :: _ => "array"
  | 'O' :: _ => "object"
  | _ => "number"

theorem tagKind_taggedLines (v : Value) (level : Nat) (r : List Char) :
    tagKind (v.taggedLines level ++ r) = v.kind := by
  cases v <;> rfl

theorem tagKind_taggedChars (v : Value) (r : List Char) :
    tagKind (v.taggedChars ++ r) = v.kind := by
  cases v <;> rfl

theorem taggedChars_ne_close (v : Value) (r s : List Char) : v.taggedChars ++ r ≠ ']' :: s := by
  cases v <;> exact fun heq => absurd (List.cons.inj heq).1 (by decide)

theorem taggedChars_array (items : List Value) : (Value.array items).taggedChars =
    "Array [".toList ++ (separated [' '] taggedChars items ++ [']']) := by
  have htext : (Value.array items).taggedChars =
      "Array [".toList ++ taggedItems items ++ [']'] := rfl
  rw [htext, taggedItems_eq, List.append_assoc]

theorem taggedChars_object (fields : List (String × Value)) : (Value.object fields).taggedChars =
    "Object \x7b".toList ++ (separated [' '] (taggedField taggedChars) fields ++ ['\x7d']) := by
  have htext : (Value.object fields).taggedChars =
      "Object \x7b".toList ++ taggedFields fields ++ ['\x7d'] := rfl
  rw [htext, taggedFields_eq, List.append_assoc]

theorem taggedScalar_append_inj {tag : String} {x y : List Char}
    (h : taggedScalar tag x ++ r = taggedScalar tag y ++ s) : x ++ ')' :: r = y ++ ')' :: s := by
  rw [taggedScalar, taggedScalar] at h
  simp only [List.append_assoc, List.cons_append, List.nil_append] at h
  exact (List.cons.inj (List.append_cancel_left h)).2

theorem legible_taggedChars : Legible fun _ => taggedChars where
  kind _ {v w r s} _ _ heq := by
    rw [← tagKind_taggedChars v r, heq, tagKind_taggedChars]
  bool _ {b c _ _} heq := by
    have hword := taggedScalar_append_inj heq
    cases b <;> cases c
    · exact ⟨rfl, List.append_cancel_left heq⟩
    · exact absurd (List.cons.inj hword).1 (by decide)
    · exact absurd (List.cons.inj hword).1 (by decide)
    · exact ⟨rfl, List.append_cancel_left heq⟩
  whole _ {_ _ _ _} hr hs heq := by
    have hn := whole_append_inj (ends_cons.mpr rfl) (ends_cons.mpr rfl)
      (taggedScalar_append_inj heq)
    exact hn.imp_right fun h => (List.cons.inj h).2
  string _ {_ _ _ _} heq := by
    have hs := quotedChars_append_inj (taggedScalar_append_inj heq)
    exact ⟨String.toList_inj.mp hs.1, (List.cons.inj hs.2).2⟩
  array _ {xs ys r s} hxs hys heq := by
    simp only [taggedChars_array, List.append_assoc] at heq
    exact separated_append_inj (by decide) (by decide) (fun v r s _ => v.taggedChars_ne_close r s)
      hxs hys (List.append_cancel_left heq)
  object _ {fs gs r s} hfs hgs heq := by
    simp only [taggedChars_object, List.append_assoc] at heq
    refine separated_append_inj (by decide) (by decide) ?_ ?_ hgs (List.append_cancel_left heq)
    · exact fun f r s _ heq => absurd (List.cons.inj heq).1 (by decide)
    · exact fun f hf => ⟨(hfs f hf).1, tells_taggedField (hfs f hf).2⟩

theorem indent_succ (level : Nat) : indent (level + 1) = indent level ++ "    ".toList := by
  rw [indent, Nat.mul_succ, List.replicate_add]
  rfl

def entryLine {α : Type} (level : Nat) (text : α → List Char) (a : α) : List Char :=
  indent level ++ (text a ++ [',', '\n'])

theorem taggedItemLines_eq (level : Nat) (items : List Value) :
    taggedItemLines level items = items.flatMap (entryLine level (taggedLines level)) := by
  induction items with
  | nil => rfl
  | cons v rest ih =>
    rw [taggedItemLines, ih, List.flatMap_cons, entryLine]
    simp only [List.append_assoc]
    rfl

theorem taggedFieldLines_eq (level : Nat) (fields : List (String × Value)) :
    taggedFieldLines level fields =
      fields.flatMap (entryLine level (taggedField (taggedLines level))) := by
  induction fields with
  | nil => rfl
  | cons f rest ih =>
    rw [taggedFieldLines, ih, List.flatMap_cons, entryLine, taggedField, fieldText]
    simp only [List.append_assoc]
    rfl

theorem entryLine_ne_close {α : Type} {text : α → List Char} {level : Nat} {close : Char}
    (hblank : close ≠ ' ') (a : α) (r s : List Char) :
    entryLine (level + 1) text a ++ r ≠ (indent level ++ [close]) ++ s := by
  intro heq
  rw [entryLine, indent_succ] at heq
  simp only [List.append_assoc] at heq
  exact hblank (List.cons.inj (List.append_cancel_left heq)).1.symm

theorem block_append_inj {α : Type} {text : α → List Char} {P : α → Prop} {opening close : Char}
    {level : Nat} (hblank : close ≠ ' ') (hline : close ≠ '\n') {l k : List α}
    (hl : ∀ a ∈ l, Tells text P a) (hk : ∀ b ∈ k, P b)
    (h : block opening close level l.isEmpty (l.flatMap (entryLine (level + 1) text)) ++ r =
      block opening close level k.isEmpty (k.flatMap (entryLine (level + 1) text)) ++ s) :
    l = k ∧ r = s := by
  cases l with
  | nil =>
    cases k with
    | nil => exact ⟨rfl, List.append_cancel_left h⟩
    | cons b k => exact absurd (List.cons.inj (List.cons.inj h).2).1 hline
  | cons a l =>
    cases k with
    | nil => exact absurd (List.cons.inj (List.cons.inj h).2).1.symm hline
    | cons b k =>
      have hblock (body r : List Char) : block opening close level false body ++ r =
          opening :: '\n' :: (body ++ ((indent level ++ [close]) ++ r)) := by
        simp [block]
      rw [List.isEmpty_cons, List.isEmpty_cons, hblock, hblock] at h
      have hlines := (List.cons.inj (List.cons.inj h).2).2
      have hitem : ∀ a' ∈ a :: l, ∀ b, P b → ∀ r s, True → True →
          entryLine (level + 1) text a' ++ r = entryLine (level + 1) text b ++ s →
          a' = b ∧ r = s := by
        intro a' ha b hb r s _ _ heq
        simp only [entryLine, List.append_assoc] at heq
        obtain ⟨hab, hrs⟩ := hl a' ha b hb _ _ (ends_cons.mpr rfl) (ends_cons.mpr rfl)
          (List.append_cancel_left heq)
        exact ⟨hab, (List.cons.inj (List.cons.inj hrs).2).2⟩
      exact flatMap_append_inj (R := fun _ => True) (entryLine_ne_close hblank)
        (fun _ _ => trivial) hitem hk hlines

theorem taggedLines_array (level : Nat) (items : List Value) :
    (Value.array items).taggedLines level = "Array ".toList ++
      block '[' ']' level items.isEmpty
        (items.flatMap (entryLine (level + 1) (taggedLines (level + 1)))) := by
  rw [← taggedItemLines_eq]
  rfl

theorem taggedLines_object (level : Nat) (fields : List (String × Value)) :
    (Value.object fields).taggedLines level = "Object ".toList ++
      block '\x7b' '\x7d' level fields.isEmpty
        (fields.flatMap (entryLine (level + 1) (taggedField (taggedLines (level + 1))))) := by
  rw [← taggedFieldLines_eq]
  rfl

theorem legible_taggedLines : Legible fun level => taggedLines level where
  kind level {v w r s} _ _ heq := by
    rw [← tagKind_taggedLines v level r, heq, tagKind_taggedLines]
  bool level {_ _ _ _} heq := legible_taggedChars.bool level heq
  whole level {_ _ _ _} hr hs heq := legible_taggedChars.whole level hr hs heq
  string level {_ _ _ _} heq := legible_taggedChars.string level heq
  array level {xs ys r s} hxs hys heq := by
    simp only [taggedLines_array, List.append_assoc] at heq
    exact block_append_inj (by decide) (by decide) (fun v hv => (hxs v hv).2) hys
      (List.append_cancel_left heq)
  object level {fs gs r s} hfs hgs heq := by
    simp only [taggedLines_object, List.append_assoc] at heq
    exact block_append_inj (by decide) (by decide) (fun f hf => tells_taggedField (hfs f hf).2) hgs
      (List.append_cancel_left heq)

theorem Ordered.at? (h : v.Ordered) {path : List Step} (hw : v.at? path = some w) : w.Ordered := by
  induction path generalizing v with
  | nil => exact Option.some.inj hw ▸ h
  | cons s path ih =>
    obtain ⟨c, hc, hw⟩ := Option.bind_eq_some_iff.mp hw
    refine ih ?_ hw
    cases v with
    | object fields =>
      cases s with
      | key k => exact orderedFields_iff.mp h.2 _ (mem_of_lookup hc)
      | index i => exact absurd hc nofun
    | array items =>
      cases s with
      | key k => exact absurd hc nofun
      | index i => exact orderedItems_iff.mp h _ (List.mem_of_getElem? hc)
    | _ => exact absurd hc nofun

end Value

namespace Message

open Value

variable {m n : Message}

theorem eq_of_toValue_eq (h : m.toValue = n.toValue) : m = n :=
  eq_of_fields_eq (Value.object.inj h)

theorem eq_of_text_eq {text : Nat → Value → List Char} (h : Legible text)
    (hm : m.toValue.Floatless) (hn : n.toValue.Floatless)
    (htext : text 0 m.toValue = text 0 n.toValue) : m = n := by
  refine eq_of_toValue_eq (h.tells hm 0 n.toValue hn [] [] ends_nil ends_nil ?_).1
  rw [htext]

theorem taggedChars_toValue (m : Message) :
    m.toValue.taggedChars = "Object ".toList ++ m.debug.toList := by
  have hchars : m.debug.toList = '\x7b' :: taggedFields m.fields ++ ['\x7d'] :=
    String.toList_ofList
  rw [hchars]
  rfl

theorem taggedLines_toValue (m : Message) :
    m.toValue.taggedLines 0 = "Object ".toList ++ m.debugLines.toList := by
  have hchars : m.debugLines.toList =
      block '\x7b' '\x7d' 0 m.fields.isEmpty (taggedFieldLines 1 m.fields) :=
    String.toList_ofList
  rw [hchars]
  rfl

theorem same_iff_eq (hm : m.toValue.Floatless) (hn : n.toValue.Floatless) :
    m.same n = true ↔ m = n :=
  (hm.same_iff hn).trans ⟨eq_of_toValue_eq, congrArg _⟩

/-- Each of the texts of a message without floats identifies it: the compact text, and the tagged
text on one line or on many. Neither the order in which fields were set nor values that were set
over leave a trace in them, and at every level the keys stand in the order of their bytes. -/
theorem texts_identify :
    (∀ m n : Message, m.toValue.Floatless → n.toValue.Floatless →
      [m.same n = true, m.compact = n.compact, m.debug = n.debug,
        m.debugLines = n.debugLines].TFAE) ∧
    (∀ ps qs : List (String × Value), (∀ key, lastOf key ps = lastOf key qs) →
      (ofList ps).compact = (ofList qs).compact ∧ (ofList ps).debug = (ofList qs).debug ∧
      (ofList ps).debugLines = (ofList qs).debugLines) ∧
    (∀ (m : Message) (path : List Step) (fields : List (String × Value)),
      m.toValue.at? path = some (.object fields) →
      fields.Pairwise fun f g => bytes f.1 < bytes g.1) := by
  refine ⟨fun m n hm hn => ?_, fun ps qs h => ?_, fun m path fields h => ?_⟩
  · rw [same_iff_eq hm hn]
    tfae_have 1 → 2 := congrArg _
    tfae_have 1 → 3 := congrArg _
    tfae_have 1 → 4 := congrArg _
    tfae_have 2 → 1 := fun h =>
      eq_of_text_eq legible_compactChars hm hn (String.ofList_injective h)
    tfae_have 3 → 1 := fun h => eq_of_text_eq legible_taggedChars hm hn <| by
      rw [taggedChars_toValue, h, ← taggedChars_toValue]
    tfae_have 4 → 1 := fun h => eq_of_text_eq legible_taggedLines hm hn <| by
      rw [taggedLines_toValue, h, ← taggedLines_toValue]
    tfae_finish
  · rw [ofList_congr h]
    exact ⟨rfl, rfl, rfl⟩
  · have hordered : (Value.object fields).Ordered := m.ordered.at? h
    exact hordered.1.imp bytes_lt_bytes_iff.mpr

/-- One string with quotes and a comma in it does not look like two strings. -/
theorem texts_identify_quotes :
    (ofList [("k", .array [.string "x\",\"y"])]).compact ≠
      (ofList [("k", .array [.string "x", .string "y"])]).compact ∧
    (ofList [("k", .array [.string "x\",\"y"])]).debug ≠
      (ofList [("k", .array [.string "x", .string "y"])]).debug := by
  have hone : (ofList [("k", .array [.string "x\",\"y"])]).toValue.Floatless :=
    .object (List.forall_mem_singleton.mpr (.array (List.forall_mem_singleton.mpr (.string _))))
  have htwo : (ofList [("k", .array [.string "x", .string "y"])]).toValue.Floatless :=
    .object (List.forall_mem_singleton.mpr (.array
      (List.forall_mem_cons.mpr ⟨.string _, List.forall_mem_singleton.mpr (.string _)⟩)))
  have hdiffer : ¬ (ofList [("k", .array [.string "x\",\"y"])]).same
      (ofList [("k", .array [.string "x", .string "y"])]) = true := by decide
  have htfae := texts_identify.1 _ _ hone htwo
  exact ⟨mt (htfae.out 1 0).mp hdiffer, mt (htfae.out 2 0).mp hdiffer⟩

end Message
end Fanout
