import Mathlib.Tactic.SplitIfs
import Fanout.Value.Reader
import Fanout.Value.Tagged

/-! # Texts that tell where they end

Digits end at the first character that is no digit. A quoted string ends at the first quote that
no backslash stands before, and the escapes in it can be told from each other and from characters
that stand for themselves. Lists of texts end at a bracket that none of them begins with.
-/
namespace Fanout.Text

open Value (hexDigit?)

variable {b m n : Nat} {r s : List Char}

theorem hexDigit?_digitChar {d : Nat} (h : d < 16) : hexDigit? d.digitChar = some d := by
  have hall : ∀ d : Fin 16, hexDigit? (Nat.digitChar d) = some d.val := by decide
  exact hall ⟨d, h⟩

/-- The number that digits of a base stand for. -/
def digitsValue (b : Nat) (cs : List Char) : Nat :=
  cs.foldl (fun n c => b * n + (hexDigit? c).getD 0) 0

theorem digitsValue_toDigits (hb : 1 < b) (hb' : b ≤ 16) (n : Nat) :
    digitsValue b (Nat.toDigits b n) = n := by
  induction n using Nat.base_induction b hb with
  | single m hm =>
    rw [Nat.toDigits_of_lt_base hm, digitsValue, List.foldl_cons,
      hexDigit?_digitChar (Nat.lt_of_lt_of_le hm hb'), Nat.mul_zero, Nat.zero_add]
    rfl
  | digit m d hd hm ih =>
    rw [← Nat.toDigits_append_toDigits hb hm hd, Nat.toDigits_of_lt_base hd, digitsValue,
      List.foldl_append, ← digitsValue, ih, List.foldl_cons,
      hexDigit?_digitChar (Nat.lt_of_lt_of_le hd hb')]
    rfl

theorem toDigits_injective (hb : 1 < b) (hb' : b ≤ 16) : Function.Injective (Nat.toDigits b) := by
  intro m n h
  rw [← digitsValue_toDigits hb hb' m, h, digitsValue_toDigits hb hb']

theorem repr_injective : Function.Injective Nat.repr := by
  intro m n h
  have hchars := congrArg String.toList h
  rw [Nat.toList_repr, Nat.toList_repr] at hchars
  exact toDigits_injective (by decide) (by decide) hchars

theorem isSome_hexDigit?_of_mem (hb : 1 < b) (hb' : b ≤ 16) {c : Char}
    (h : c ∈ Nat.toDigits b n) : (hexDigit? c).isSome = true := by
  induction n using Nat.base_induction b hb with
  | single m hm =>
    rw [Nat.toDigits_of_lt_base hm, List.mem_singleton] at h
    rw [h, hexDigit?_digitChar (Nat.lt_of_lt_of_le hm hb')]
    rfl
  | digit m d hd hm ih =>
    rw [← Nat.toDigits_append_toDigits hb hm hd, Nat.toDigits_of_lt_base hd, List.mem_append,
      List.mem_singleton] at h
    rcases h with h | rfl
    · exact ih h
    · rw [hexDigit?_digitChar (Nat.lt_of_lt_of_le hd hb')]
      rfl

/-- Nothing comes, or something that is no digit. -/
def Ends (rest : List Char) : Prop := ∀ c ∈ rest.head?, hexDigit? c = none

@[simp] theorem ends_nil : Ends [] := nofun

@[simp] theorem ends_cons {c : Char} : Ends (c :: r) ↔ hexDigit? c = none := by
  simp [Ends]

theorem takeWhile_toDigits (hb : 1 < b) (hb' : b ≤ 16) (hr : Ends r) :
    (Nat.toDigits b n ++ r).takeWhile (fun c => (hexDigit? c).isSome) = Nat.toDigits b n := by
  have hnone : r.takeWhile (fun c => (hexDigit? c).isSome) = [] := by
    cases r with
    | nil => rfl
    | cons c r =>
      rw [List.takeWhile_cons_of_neg (by rw [ends_cons.mp hr]; exact Bool.false_ne_true)]
  rw [List.takeWhile_append_of_pos fun c hc => isSome_hexDigit?_of_mem hb hb' hc, hnone,
    List.append_nil]

theorem toDigits_append_inj (hb : 1 < b) (hb' : b ≤ 16) (hr : Ends r) (hs : Ends s)
    (h : Nat.toDigits b m ++ r = Nat.toDigits b n ++ s) : m = n ∧ r = s := by
  have hdigits : Nat.toDigits b m = Nat.toDigits b n := by
    rw [← takeWhile_toDigits hb hb' hr, h, takeWhile_toDigits hb hb' hs]
  rw [hdigits] at h
  exact ⟨toDigits_injective hb hb' hdigits, List.append_cancel_left h⟩

/-- A spelling of a character between quotes: a short escape, a long one for a wide character,
or the character itself. -/
inductive Spells (short : Char → Option Char) (wide : Char → Prop) (long : Char → List Char)
    (c : Char) : List Char → Prop where
  | short (e : Char) : short e = some c → Spells short wide long c ['\\', e]
  | long : wide c → Spells short wide long c ('\\' :: 'u' :: long c)
  | self : c ≠ '\\' → c ≠ '"' → Spells short wide long c [c]

variable {short : Char → Option Char} {wide : Char → Prop} {long : Char → List Char} {c d : Char}
  {x y : List Char}

theorem Spells.ne_quote (h : Spells short wide long c x) : x ++ r ≠ '"' :: s := by
  cases h with
  | short e _ => exact fun heq => absurd (List.cons.inj heq).1 (by decide)
  | long _ => exact fun heq => absurd (List.cons.inj heq).1 (by decide)
  | self _ hq => exact fun heq => hq (List.cons.inj heq).1

/-- Spellings can be told from each other, whatever comes behind. -/
theorem Spells.append_inj (hu : short 'u' = none)
    (hlong : ∀ c d r s, wide c → wide d → long c ++ r = long d ++ s → c = d ∧ r = s)
    (hc : Spells short wide long c x) (hd : Spells short wide long d y)
    (h : x ++ r = y ++ s) : c = d ∧ r = s := by
  cases hc with
  | short e he =>
    cases hd with
    | short e' he' =>
      simp only [List.cons_append, List.nil_append, List.cons.injEq, true_and] at h
      obtain ⟨rfl, hrs⟩ := h
      exact ⟨Option.some.inj (he.symm.trans he'), hrs⟩
    | long _ =>
      simp only [List.cons_append, List.nil_append, List.cons.injEq, true_and] at h
      exact absurd (h.1 ▸ he) (by rw [hu]; nofun)
    | self hb _ => exact absurd (List.cons.inj h).1.symm hb
  | long hw =>
    cases hd with
    | short e he =>
      simp only [List.cons_append, List.nil_append, List.cons.injEq, true_and] at h
      exact absurd (h.1 ▸ he) (by rw [hu]; nofun)
    | long hw' =>
      simp only [List.cons_append, List.cons.injEq, true_and] at h
      exact hlong c d r s hw hw' h
    | self hb _ => exact absurd (List.cons.inj h).1.symm hb
  | self hb _ =>
    cases hd with
    | short e he => exact absurd (List.cons.inj h).1 hb
    | long _ => exact absurd (List.cons.inj h).1 hb
    | self _ _ => exact ⟨(List.cons.inj h).1, (List.cons.inj h).2⟩

/-- Items in a row, closed by something that none of them begins with, can be told from each other
if each of them can, whatever may come behind it. -/
theorem flatMap_append_inj {α : Type} {item : α → List Char} {close : List Char} {P : α → Prop}
    {R : List Char → Prop} (hclose : ∀ a r s, item a ++ r ≠ close ++ s)
    (hrest : ∀ (l : List α) r, R (l.flatMap item ++ (close ++ r))) {l k : List α}
    (hitem : ∀ a ∈ l, ∀ b, P b → ∀ r s, R r → R s → item a ++ r = item b ++ s → a = b ∧ r = s)
    (hk : ∀ b ∈ k, P b) (h : l.flatMap item ++ (close ++ r) = k.flatMap item ++ (close ++ s)) :
    l = k ∧ r = s := by
  induction l generalizing k with
  | nil =>
    cases k with
    | nil => exact ⟨rfl, List.append_cancel_left h⟩
    | cons b k =>
      rw [List.flatMap_nil, List.nil_append, List.flatMap_cons, List.append_assoc] at h
      exact absurd h.symm (hclose b _ _)
  | cons a l ih =>
    cases k with
    | nil =>
      rw [List.flatMap_nil, List.nil_append, List.flatMap_cons, List.append_assoc] at h
      exact absurd h (hclose a _ _)
    | cons b k =>
      rw [List.flatMap_cons, List.append_assoc, List.flatMap_cons, List.append_assoc] at h
      obtain ⟨rfl, htail⟩ := hitem a List.mem_cons_self b (hk b List.mem_cons_self) _ _
        (hrest l r) (hrest k s) h
      obtain ⟨rfl, hrs⟩ := ih (fun a ha => hitem a (List.mem_cons_of_mem _ ha))
        (fun b hb => hk b (List.mem_cons_of_mem _ hb)) htail
      exact ⟨rfl, hrs⟩

/-- Of all items that count, the text of `a` tells `a` and where it ends, if no digit follows. -/
def Tells {α : Type} (text : α → List Char) (P : α → Prop) (a : α) : Prop :=
  ∀ b, P b → ∀ r s, Ends r → Ends s → text a ++ r = text b ++ s → a = b ∧ r = s

def separated {α : Type} (gap : List Char) (text : α → List Char) : List α → List Char
  | [] => []
  | a :: rest => text a ++ rest.flatMap fun b => ',' :: gap ++ text b

theorem separated_append_inj {α : Type} {gap : List Char} {text : α → List Char} {P : α → Prop}
    {close : Char} (hclose : hexDigit? close = none) (hcomma : close ≠ ',')
    (hhead : ∀ a r s, P a → text a ++ r ≠ close :: s) {l k : List α}
    (hl : ∀ a ∈ l, P a ∧ Tells text P a) (hk : ∀ b ∈ k, P b)
    (h : separated gap text l ++ close :: r = separated gap text k ++ close :: s) :
    l = k ∧ r = s := by
  have hends (l : List α) (r : List Char) :
      Ends ((l.flatMap fun b => ',' :: gap ++ text b) ++ ([close] ++ r)) := by
    cases l with
    | nil => exact ends_cons.mpr hclose
    | cons b l => exact ends_cons.mpr rfl
  cases l with
  | nil =>
    cases k with
    | nil => exact ⟨rfl, (List.cons.inj h).2⟩
    | cons b k =>
      rw [separated, separated, List.append_assoc] at h
      exact absurd h.symm (hhead b _ _ (hk b List.mem_cons_self))
  | cons a l =>
    obtain ⟨ha, htells⟩ := hl a List.mem_cons_self
    cases k with
    | nil =>
      rw [separated, separated, List.append_assoc] at h
      exact absurd h (hhead a _ _ ha)
    | cons b k =>
      rw [separated, separated, List.append_assoc, List.append_assoc] at h
      obtain ⟨rfl, htail⟩ := htells b (hk b List.mem_cons_self) _ _ (hends l r) (hends k s) h
      have hcomma' (a : α) (r s : List Char) : (',' :: gap ++ text a) ++ r ≠ [close] ++ s :=
        fun heq => hcomma (List.cons.inj heq).1.symm
      have hitem : ∀ a ∈ l, ∀ b, P b → ∀ r s, Ends r → Ends s →
          (',' :: gap ++ text a) ++ r = (',' :: gap ++ text b) ++ s → a = b ∧ r = s := by
        intro a ha b hb r s hr hs h
        rw [List.append_assoc, List.append_assoc] at h
        exact (hl a (List.mem_cons_of_mem _ ha)).2 b hb r s hr hs (List.append_cancel_left h)
      obtain ⟨rfl, hrs⟩ := flatMap_append_inj hcomma' hends hitem
        (fun b hb => hk b (List.mem_cons_of_mem _ hb)) htail
      exact ⟨rfl, hrs⟩

theorem quoted_append_inj {spell : Char → List Char} (hu : short 'u' = none)
    (hlong : ∀ c d r s, wide c → wide d → long c ++ r = long d ++ s → c = d ∧ r = s)
    (hspell : ∀ c, Spells short wide long c (spell c)) {cs ds : List Char}
    (h : ('"' :: cs.flatMap spell ++ ['"']) ++ r = ('"' :: ds.flatMap spell ++ ['"']) ++ s) :
    cs = ds ∧ r = s := by
  simp only [List.cons_append, List.append_assoc, List.cons.injEq, true_and] at h
  have hrow : cs.flatMap spell ++ (['"'] ++ r) = ds.flatMap spell ++ (['"'] ++ s) := h
  refine flatMap_append_inj (P := fun _ => True) (R := fun _ => True) ?_ (fun _ _ => trivial)
    (fun c _ d _ r s _ _ => (hspell c).append_inj hu hlong (hspell d)) (fun _ _ => trivial)
    hrow
  exact fun c r s => (hspell c).ne_quote

def quotedEscape? : Char → Option Char
  | '"' => some '"'
  | '\\' => some '\\'
  | '0' => some '\x00'
  | 't' => some '\t'
  | 'r' => some '\r'
  | 'n' => some '\n'
  | _ => none

def braced (c : Char) : List Char := '\x7b' :: Nat.toDigits 16 c.toNat ++ ['\x7d']

theorem spells_quotedChar (c : Char) :
    Spells quotedEscape? (fun _ => True) braced c (quotedChar c) := by
  rw [quotedChar]
  split_ifs with hq hb h0 ht hr hn hwide
  · exact .short _ (by rw [hq]; rfl)
  · exact .short _ (by rw [hb]; rfl)
  · exact .short _ (congrArg some (Char.toNat_inj.mp h0.symm))
  · exact .short _ (by rw [ht]; rfl)
  · exact .short _ (by rw [hr]; rfl)
  · exact .short _ (by rw [hn]; rfl)
  · exact .long trivial
  · exact .self hb hq

theorem braced_append_inj {c d : Char} (h : braced c ++ r = braced d ++ s) : c = d ∧ r = s := by
  simp only [braced, List.cons_append, List.append_assoc, List.cons.injEq, true_and] at h
  obtain ⟨hcd, hrs⟩ := toDigits_append_inj (by decide) (by decide) (ends_cons.mpr rfl)
    (ends_cons.mpr rfl) h
  exact ⟨Char.toNat_inj.mp hcd, (List.cons.inj hrs).2⟩

theorem quotedChars_append_inj {cs ds : List Char}
    (h : quotedChars cs ++ r = quotedChars ds ++ s) : cs = ds ∧ r = s :=
  quoted_append_inj rfl (fun _ _ _ _ _ _ => braced_append_inj) spells_quotedChar h

theorem spells_compactChar (c : Char) :
    Spells Value.shortEscape? (·.toNat < 0x20) (fun c => Value.hexUnit c.toNat) c
      (Value.compactChar c) := by
  rw [Value.compactChar]
  split_ifs with hq hb h8 hc hn hr ht hwide
  · exact .short _ (by rw [hq]; rfl)
  · exact .short _ (by rw [hb]; rfl)
  · exact .short _ (congrArg some (Char.toNat_inj.mp h8.symm))
  · exact .short _ (congrArg some (Char.toNat_inj.mp hc.symm))
  · exact .short _ (by rw [hn]; rfl)
  · exact .short _ (by rw [hr]; rfl)
  · exact .short _ (by rw [ht]; rfl)
  · exact .long hwide
  · exact .self hb hq

theorem hexUnit_append_inj {m n : Nat} (hm : m < 0x20) (hn : n < 0x20)
    (h : Value.hexUnit m ++ r = Value.hexUnit n ++ s) : m = n ∧ r = s := by
  obtain ⟨hunit, hrs⟩ := List.append_inj h rfl
  have hall : ∀ m n : Fin 0x20, Value.hexUnit m = Value.hexUnit n → m = n := by decide
  exact ⟨congrArg Fin.val (hall ⟨m, hm⟩ ⟨n, hn⟩ hunit), hrs⟩

theorem compactString_append_inj {a b : String}
    (h : Value.compactString a ++ r = Value.compactString b ++ s) : a = b ∧ r = s := by
  refine (quoted_append_inj rfl ?_ spells_compactChar h).imp_left String.toList_inj.mp
  intro c d r s hc hd h
  exact (hexUnit_append_inj hc hd h).imp_left Char.toNat_inj.mp

end Fanout.Text
