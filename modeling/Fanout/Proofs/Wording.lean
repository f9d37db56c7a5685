import Mathlib.Data.List.DropRight
import Fanout.Event
import Fanout.Proofs.Spelling

/-! # What the texts of faults and errors tell

Every fault and every error has a lead of its own, none of which another one begins with, and
behind it stands free text, a count or a duration. Free text can imitate none of the others, as it
comes behind the lead. A duration tells all its nanoseconds and where its text ends, since its
unit is one of four and its fraction is exact.
-/
namespace Fanout

open Text
open Value (hexDigit?)

namespace Duration

variable {d e : Duration} {u v : Scale} {r s x y : List Char}

def units : List Scale :=
  [⟨perSecond, 9, ['s']⟩, ⟨perMillisecond, 6, ['m', 's']⟩, ⟨perMicrosecond, 3, ['µ', 's']⟩,
    ⟨1, 0, ['n', 's']⟩]

def point : List Char → List Char
  | [] => []
  | digits => '.' :: digits

/-- How the text of a duration is made up: the largest unit that fits in it at least once, how
often it does, and the rest as a decimal fraction of the unit, exact and without trailing zeros.
No time at all is written in nanoseconds. -/
structure Written (d : Duration) (u : Scale) (digits : List Char) : Prop where
  unit : u ∈ units
  fits : u.size ≤ max d.nanoseconds 1
  largest : ∀ v ∈ units, v.size ≤ max d.nanoseconds 1 → v.size ≤ u.size
  chars : d.chars = Nat.toDigits 10 (d.nanoseconds / u.size) ++ point digits ++ u.suffix
  decimal : ∀ c ∈ digits, c.isDigit = true
  trimmed : digits.getLast? ≠ some '0'
  short : digits.length ≤ u.places
  exact : digitsValue 10 (digits ++ List.replicate (u.places - digits.length) '0') =
    d.nanoseconds % u.size

theorem length_lowDigits (places n : Nat) : (lowDigits places n).length = places := by
  induction places generalizing n with
  | zero => rfl
  | succ places ih => simp [lowDigits, ih]

theorem isDigit_lowDigits {places n : Nat} : ∀ c ∈ lowDigits places n, c.isDigit = true := by
  have hall : ∀ k : Fin 10, (Nat.digitChar k).isDigit = true := by decide
  induction places generalizing n with
  | zero => simp [lowDigits]
  | succ places ih =>
    intro c hc
    rcases List.mem_append.mp hc with hc | hc
    · exact ih c hc
    · rw [List.mem_singleton.mp hc]
      exact hall ⟨n % 10, Nat.mod_lt n (by decide)⟩

theorem digitsValue_lowDigits (places n : Nat) :
    digitsValue 10 (lowDigits places n) = n % Nat.pow 10 places := by
  induction places generalizing n with
  | zero => exact (Nat.mod_one n).symm
  | succ places ih =>
    have hlast : n % 10 < 10 := Nat.mod_lt n (by decide)
    have hsplit : n % (10 * Nat.pow 10 places) = n % 10 + 10 * (n / 10 % Nat.pow 10 places) :=
      Nat.mod_mul
    have hpow : Nat.pow 10 (places + 1) = 10 * Nat.pow 10 places := Nat.mul_comm _ _
    rw [hpow, hsplit, ← ih, lowDigits, digitsValue, List.foldl_append, ← digitsValue,
      List.foldl_cons, hexDigit?_digitChar (Nat.lt_trans hlast (by decide))]
    exact Nat.add_comm _ _

theorem rdropWhile_append_zeros (cs : List Char) :
    cs.rdropWhile (· = '0') ++
      List.replicate (cs.length - (cs.rdropWhile (· = '0')).length) '0' = cs := by
  induction cs using List.reverseRecOn with
  | nil => rfl
  | append_singleton cs c ih =>
    by_cases hc : c = '0'
    · have hdrop : (cs ++ [c]).rdropWhile (· = '0') = cs.rdropWhile (· = '0') :=
        List.rdropWhile_concat_pos _ _ _ (by simpa using hc)
      have hlen : (cs.rdropWhile (· = '0')).length ≤ cs.length :=
        (List.rdropWhile_prefix _ cs).length_le
      have hcount : (cs ++ [c]).length - (cs.rdropWhile (· = '0')).length =
          cs.length - (cs.rdropWhile (· = '0')).length + 1 := by
        simp only [List.length_append, List.length_singleton]
        omega
      rw [hdrop, hcount, List.replicate_succ', ← List.append_assoc, ih, hc]
    · have hdrop : (cs ++ [c]).rdropWhile (· = '0') = cs ++ [c] :=
        List.rdropWhile_concat_neg _ _ _ (by simpa using hc)
      simp [hdrop]

theorem scale_mem_units (d : Duration) : d.scale ∈ units := by
  unfold scale
  split_ifs <;> decide

theorem size_of_mem_units (hu : u ∈ units) : u.size = Nat.pow 10 u.places := by
  have hall : ∀ u ∈ units, u.size = Nat.pow 10 u.places := by decide
  exact hall u hu

theorem scale_fits (d : Duration) : d.scale.size ≤ max d.nanoseconds 1 := by
  unfold scale
  split_ifs <;> dsimp only <;> omega

theorem scale_largest (d : Duration) (hv : v ∈ units) (hfits : v.size ≤ max d.nanoseconds 1) :
    v.size ≤ d.scale.size := by
  have hs : perSecond = 1000000000 := rfl
  have hm : perMillisecond = 1000000 := rfl
  have hu : perMicrosecond = 1000 := rfl
  simp only [units, List.mem_cons, List.not_mem_nil, or_false] at hv
  unfold scale
  rcases hv with rfl | rfl | rfl | rfl
  all_goals
    dsimp only at hfits
    split_ifs
    all_goals
      dsimp only
      omega

/-- Every duration is written like this. -/
theorem written (d : Duration) : d.Written d.scale
    ((lowDigits d.scale.places (d.nanoseconds % d.scale.size)).rdropWhile (· = '0')) := by
  let digits := lowDigits d.scale.places (d.nanoseconds % d.scale.size)
  have hlen : digits.length = d.scale.places := length_lowDigits ..
  have hkept : digits.rdropWhile (· = '0') <+: digits := List.rdropWhile_prefix _ _
  refine ⟨d.scale_mem_units, d.scale_fits, fun v => d.scale_largest, ?_, ?_, ?_, ?_, ?_⟩
  · have hpoint : point (digits.rdropWhile (· = '0')) =
        fraction d.scale.places (d.nanoseconds % d.scale.size) := by
      unfold fraction point List.rdropWhile
      rfl
    rw [hpoint]
    rfl
  · intro c hc
    exact isDigit_lowDigits c (hkept.subset hc)
  · intro hlast
    have hne : digits.rdropWhile (· = '0') ≠ [] := fun hnil => by simp [hnil, digits] at hlast
    have hzero := List.rdropWhile_last_not (· = '0') digits hne
    rw [List.getLast?_eq_some_getLast hne] at hlast
    simp [Option.some.inj hlast] at hzero
  · exact hkept.length_le.trans_eq hlen
  · have hrest : d.nanoseconds % d.scale.size < d.scale.size := by
      apply Nat.mod_lt
      rw [size_of_mem_units d.scale_mem_units]
      exact Nat.pow_pos (by decide)
    have hzeros := rdropWhile_append_zeros digits
    rw [hlen] at hzeros
    rw [hzeros, digitsValue_lowDigits, ← size_of_mem_units d.scale_mem_units]
    exact Nat.mod_eq_of_lt hrest

theorem suffix_eq_cons (hu : u ∈ units) :
    ∃ c cs, u.suffix = c :: cs ∧ hexDigit? c = none ∧ (c.isDigit || c = '.') = false := by
  simp only [units, List.mem_cons, List.not_mem_nil, or_false] at hu
  rcases hu with rfl | rfl | rfl | rfl
  all_goals exact ⟨_, _, rfl, by decide, by decide⟩

theorem suffix_append_inj (hu : u ∈ units) (hv : v ∈ units)
    (h : u.suffix ++ r = v.suffix ++ s) : u = v ∧ r = s := by
  have hall : ∀ u ∈ units, ∀ v ∈ units, u.suffix.head? = v.suffix.head? → u = v := by decide
  have huv : u = v := by
    obtain ⟨c, cs, hc, -⟩ := suffix_eq_cons hu
    obtain ⟨k, ks, hk, -⟩ := suffix_eq_cons hv
    rw [hc, hk] at h
    apply hall u hu v hv
    rw [hc, hk, List.head?_cons, List.head?_cons, (List.cons.inj h).1]
  rw [huv] at h
  exact ⟨huv, List.append_cancel_left h⟩

theorem point_injective : Function.Injective point := by
  intro x y h
  cases x with
  | nil => cases y with
    | nil => rfl
    | cons => cases h
  | cons => cases y with
    | nil => cases h
    | cons => exact (List.cons.inj h).2

namespace Written

theorem takeWhile_point (hd : d.Written u x) (r : List Char) :
    (point x ++ (u.suffix ++ r)).takeWhile (fun c => c.isDigit || c = '.') = point x := by
  have hall : ∀ c ∈ point x, (c.isDigit || c = '.') = true := by
    intro c hc
    cases x with
    | nil => cases hc
    | cons a x =>
      rcases List.mem_cons.mp hc with rfl | hc
      · rfl
      · simp [hd.decimal c hc]
  obtain ⟨c, cs, hc, -, hend⟩ := suffix_eq_cons hd.unit
  rw [List.takeWhile_append_of_pos hall, hc, List.cons_append,
    List.takeWhile_cons_of_neg (by rw [hend]; exact Bool.false_ne_true), List.append_nil]

theorem ends (hd : d.Written u x) (r : List Char) : Ends (point x ++ (u.suffix ++ r)) := by
  cases x with
  | nil =>
    obtain ⟨c, cs, hc, hend, -⟩ := suffix_eq_cons hd.unit
    rw [hc]
    exact ends_cons.mpr hend
  | cons a x => exact ends_cons.mpr rfl

/-- Whole units, fraction and unit can all be read off, whatever comes behind. -/
theorem append_inj (hd : d.Written u x) (he : e.Written v y)
    (h : d.chars ++ r = e.chars ++ s) : d = e ∧ r = s := by
  rw [hd.chars, he.chars] at h
  simp only [List.append_assoc] at h
  obtain ⟨hwhole, hrest⟩ := toDigits_append_inj (by decide) (by decide) (hd.ends r) (he.ends s) h
  have hpoint : point x = point y := by
    rw [← hd.takeWhile_point r, hrest, he.takeWhile_point s]
  obtain rfl := point_injective hpoint
  obtain ⟨rfl, hrs⟩ := suffix_append_inj hd.unit he.unit (List.append_cancel_left hrest)
  have hfraction : d.nanoseconds % u.size = e.nanoseconds % u.size := by
    rw [← hd.exact, he.exact]
  have hcount : d.nanoseconds = e.nanoseconds := by
    rw [← Nat.div_add_mod d.nanoseconds u.size, hwhole, hfraction, Nat.div_add_mod]
  exact ⟨congrArg Duration.mk hcount, hrs⟩

end Written

theorem text_append_inj {x y : String} (h : d.text ++ x = e.text ++ y) : d = e ∧ x = y := by
  have hchars := congrArg String.toList h
  rw [String.toList_append, String.toList_append, toList_text, toList_text] at hchars
  obtain ⟨hde, hxy⟩ := d.written.append_inj e.written hchars
  exact ⟨hde, String.toList_inj.mp hxy⟩

theorem text_injective : Function.Injective text := by
  intro d e h
  have happend : d.text ++ "" = e.text ++ "" := by rw [h]
  exact (text_append_inj happend).1

end Duration

theorem lead_append_inj {κ : Type} {lead : κ → String}
    (hlead : ∀ k l, (lead k).toList <+: (lead l).toList → k = l) {k l : κ} {x y : String}
    (h : lead k ++ x = lead l ++ y) : k = l ∧ x = y := by
  have hchars := congrArg String.toList h
  rw [String.toList_append, String.toList_append] at hchars
  have hkl : k = l := by
    have hk : (lead k).toList <+: (lead k).toList ++ x.toList := List.prefix_append ..
    have hl : (lead l).toList <+: (lead k).toList ++ x.toList := by
      rw [hchars]
      exact List.prefix_append ..
    -- Of two beginnings of one text one begins with the other.
    rcases List.prefix_or_prefix_of_prefix hk hl with hp | hp
    · exact hlead k l hp
    · exact (hlead l k hp).symm
  rw [hkl] at h
  exact ⟨hkl, (String.append_right_inj _).mp h⟩

namespace SinkFault

/-- What tells faults apart before anything that they carry. -/
inductive Shape where
  | failed
  | closed
  | panicked
  | timedOut
  | overflow
  | workerGone
deriving DecidableEq

def shape : SinkFault → Shape
  | .failed (.fail _) => .failed
  | .failed .closed => .closed
  | .panicked _ => .panicked
  | .timedOut _ => .timedOut
  | .overflow _ => .overflow
  | .workerGone => .workerGone

def carried : SinkFault → String
  | .failed (.fail error) => error
  | .panicked info => info
  | .timedOut timeout => timeout.text
  | .overflow capacity => capacity.repr ++ ")"
  | .failed .closed | .workerGone => ""

namespace Shape

/-- How the reason of a fault begins. -/
def reasonLead : Shape → String
  | failed => "error: "
  | closed => "closed"
  | panicked => "panic: "
  | timedOut => "timeout: "
  | overflow => "overflow: queue full (capacity "
  | workerGone => "worker gone"

/-- How the message of a fault begins. -/
def messageLead : Shape → String
  | failed => "sink error: delivery failed: "
  | closed => "sink error: sink closed"
  | panicked => "sink panicked: "
  | timedOut => "sink timed out after "
  | overflow => "message dropped: queue full (capacity "
  | workerGone => "message dropped: delivery worker gone"

theorem eq_of_reasonLead (k l : Shape) (h : k.reasonLead.toList <+: l.reasonLead.toList) :
    k = l := by
  revert h
  cases k <;> cases l <;> decide

theorem eq_of_messageLead (k l : Shape) (h : k.messageLead.toList <+: l.messageLead.toList) :
    k = l := by
  revert h
  cases k <;> cases l <;> decide

end Shape

theorem reason_eq (f : SinkFault) : f.reason = f.shape.reasonLead ++ f.carried := by
  cases f with
  | failed error =>
    cases error with
    | fail => rfl
    | closed => exact String.append_empty.symm
  | panicked => rfl
  | timedOut => rfl
  | overflow => exact String.append_assoc
  | workerGone => exact String.append_empty.symm

theorem message_eq (f : SinkFault) : f.message = f.shape.messageLead ++ f.carried := by
  cases f with
  | failed error =>
    cases error with
    | fail => exact String.append_assoc.symm
    | closed => exact String.append_empty.symm
  | panicked => rfl
  | timedOut => rfl
  | overflow => exact String.append_assoc
  | workerGone => exact String.append_empty.symm

theorem eq_of_carried {f g : SinkFault} (hs : f.shape = g.shape) (hc : f.carried = g.carried) :
    f = g :=
  match f, g, hs with
  | .failed (.fail _), .failed (.fail _), _ => congrArg (failed ∘ .fail) hc
  | .failed .closed, .failed .closed, _ => rfl
  | .panicked _, .panicked _, _ => congrArg panicked hc
  | .timedOut _, .timedOut _, _ => congrArg timedOut (Duration.text_injective hc)
  | .overflow _, .overflow _, _ =>
    congrArg overflow (repr_injective ((String.append_left_inj _).mp hc))
  | .workerGone, .workerGone, _ => rfl

theorem reason_injective : Function.Injective reason := by
  intro f g h
  rw [reason_eq, reason_eq] at h
  obtain ⟨hs, hc⟩ := lead_append_inj Shape.eq_of_reasonLead h
  exact eq_of_carried hs hc

theorem message_injective : Function.Injective message := by
  intro f g h
  rw [message_eq, message_eq] at h
  obtain ⟨hs, hc⟩ := lead_append_inj Shape.eq_of_messageLead h
  exact eq_of_carried hs hc

end SinkFault

namespace RelayError

inductive Shape where
  | noRuntime
  | notAnObject
  | graceExceeded
deriving DecidableEq

def shape : RelayError → Shape
  | .noRuntime => .noRuntime
  | .notAnObject _ => .notAnObject
  | .graceExceeded .. => .graceExceeded

def Shape.lead : Shape → String
  | noRuntime => "no tokio runtime available to spawn subscriber workers"
  | notAnObject => "message payload must be a JSON object, got "
  | graceExceeded => "shutdown timeout "

def carried : RelayError → String
  | .noRuntime => ""
  | .notAnObject found => found
  | .graceExceeded grace pending =>
    grace.text ++ (" exceeded; " ++ (pending.repr ++ " worker(s) cancelled"))

theorem Shape.eq_of_lead (k l : Shape) (h : k.lead.toList <+: l.lead.toList) : k = l := by
  revert h
  cases k <;> cases l <;> decide

theorem message_eq (e : RelayError) : e.message = e.shape.lead ++ e.carried := by
  cases e with
  | noRuntime => exact String.append_empty.symm
  | notAnObject => rfl
  | graceExceeded grace pending =>
    have hassoc : ∀ a b c d e : String, a ++ b ++ c ++ d ++ e = a ++ (b ++ (c ++ (d ++ e))) := by
      intro a b c d e
      simp only [String.append_assoc]
    exact hassoc ..

theorem eq_of_carried {e f : RelayError} (hs : e.shape = f.shape) (hc : e.carried = f.carried) :
    e = f :=
  match e, f, hs with
  | .noRuntime, .noRuntime, _ => rfl
  | .notAnObject _, .notAnObject _, _ => congrArg notAnObject hc
  | .graceExceeded _ m, .graceExceeded _ n, _ => by
    obtain ⟨rfl, hrest⟩ := Duration.text_append_inj hc
    have hcount : m.repr = n.repr :=
      (String.append_left_inj _).mp ((String.append_right_inj _).mp hrest)
    rw [repr_injective hcount]

theorem message_injective : Function.Injective message := by
  intro e f h
  rw [message_eq, message_eq] at h
  obtain ⟨hs, hc⟩ := lead_append_inj Shape.eq_of_lead h
  exact eq_of_carried hs hc

end RelayError

namespace Event

theorem reason_fault (name : String) (id : SubscriberId) (f : SinkFault) (seq time : Nat) :
    ((Draft.fault name id f).stamp seq time).reason = some f.reason := by
  cases f <;> rfl

theorem timeoutMs_timedOut (name : String) (id : SubscriberId) (d : Duration) (seq time : Nat) :
    ((Draft.fault name id (.timedOut d)).stamp seq time).timeoutMs = some (capped d.millis) := rfl

end Event

open Event

/-- The texts of faults and errors keep all that these carry. A duration is written in its largest
unit with an exact fraction, so a text with a duration in it tells every nanosecond, and so does
the reason of a report, where the field for the timeout has whole milliseconds of 32 bits only. -/
theorem texts_faithful :
    (∀ d : Duration, ∃ u digits, d.Written u digits) ∧
    Function.Injective Duration.text ∧
    Function.Injective SinkFault.reason ∧
    Function.Injective SinkFault.message ∧
    Function.Injective RelayError.message ∧
    (∀ name id f seq time name' id' g seq' time',
      ((Draft.fault name id f).stamp seq time).reason =
        ((Draft.fault name' id' g).stamp seq' time').reason ↔ f = g) ∧
    ∀ name id d seq time,
      ((Draft.fault name id (.timedOut d)).stamp seq time).timeoutMs = some (capped d.millis) := by
  refine ⟨fun d => ⟨_, _, d.written⟩, Duration.text_injective, SinkFault.reason_injective,
    SinkFault.message_injective, RelayError.message_injective, ?_, timeoutMs_timedOut⟩
  intro name id f seq time name' id' g seq' time'
  rw [reason_fault, reason_fault, Option.some.injEq]
  exact SinkFault.reason_injective.eq_iff

example : (SinkFault.timedOut (.ofParts 1 500)).reason = "timeout: 1.0000005s" := by decide

end Fanout
