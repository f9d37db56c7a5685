import Fanout.Proofs.Soundness
import Fanout.Proofs.Spelling

/-! # Log lines

The line of an event tells what it shows. The tag in front has its own brackets, names and reasons
stand between quotes, and the one reason that is not quoted is worded by the relay. So nothing in
a name or a reason can pass for another field, another event or another line.
-/
namespace Fanout

open Text

namespace SubscriberId

variable {i j : SubscriberId}

theorem digitsValue_replicate_zero (b k : Nat) (cs : List Char) :
    digitsValue b (List.replicate k '0' ++ cs) = digitsValue b cs := by
  induction k with
  | zero => rfl
  | succ k ih =>
    rw [List.replicate_succ, List.cons_append, ← ih, digitsValue, List.foldl_cons, digitsValue]
    rfl

theorem hexDigits_injective (width : Nat) : Function.Injective (hexDigits width) := by
  intro m n h
  have hvalue := congrArg (digitsValue 16) h
  rwa [hexDigits, hexDigits, digitsValue_replicate_zero, digitsValue_replicate_zero,
    digitsValue_toDigits (by decide) (by decide), digitsValue_toDigits (by decide) (by decide)]
    at hvalue

theorem le_length_hexDigits (width n : Nat) : width ≤ (hexDigits width n).length := by
  rw [hexDigits, List.length_append, List.length_replicate]
  omega

theorem groups_append (d : List Char) (head : Nat) :
    d.take head ++ (d.drop head).take 4 ++ (d.drop (head + 4)).take 3 ++
      (d.drop (head + 7)).take 3 ++ d.drop (head + 10) = d := by
  have h4 : d.take (head + 4) = d.take head ++ (d.drop head).take 4 := List.take_add
  have h7 : d.take (head + 7) = d.take (head + 4) ++ (d.drop (head + 4)).take 3 :=
    List.take_add (i := head + 4) (j := 3)
  have h10 : d.take (head + 10) = d.take (head + 7) ++ (d.drop (head + 7)).take 3 :=
    List.take_add (i := head + 7) (j := 3)
  rw [← h4, ← h7, ← h10, List.take_append_drop]

/-- An identifier with more digits than usual has a longer first group, and the others begin at
the same distance from the end. -/
theorem chars_injective : Function.Injective chars := by
  intro i j h
  have hi := le_length_hexDigits 30 i.serial
  have hj := le_length_hexDigits 30 j.serial
  have hserial : hexDigits 30 i.serial = hexDigits 30 j.serial := by
    rw [chars, chars] at h
    generalize hexDigits 30 i.serial = d at h hi ⊢
    generalize hexDigits 30 j.serial = e at h hj ⊢
    obtain ⟨h, h5⟩ := List.append_inj' h (by simp; omega)
    obtain ⟨h, h4⟩ := List.append_inj' h (by simp; omega)
    obtain ⟨h, h3⟩ := List.append_inj' h (by simp; omega)
    obtain ⟨h1, h2⟩ := List.append_inj' h (by simp; omega)
    simp only [List.cons.injEq, true_and] at h2 h3 h4 h5
    rw [← groups_append d (d.length - 22), ← groups_append e (e.length - 22), h1, h2, h3, h4, h5]
  cases i
  cases j
  cases hexDigits_injective 30 hserial
  rfl

theorem text_injective : Function.Injective text :=
  fun _ _ h => chars_injective (String.ofList_injective h)

theorem isSome_hexDigit?_of_mem_hexDigits {width n : Nat} {c : Char} (h : c ∈ hexDigits width n) :
    (Value.hexDigit? c).isSome = true := by
  rcases List.mem_append.mp h with h | h
  · rw [List.eq_of_mem_replicate h]
    rfl
  · exact isSome_hexDigit?_of_mem (by decide) (by decide) h

theorem mem_chars {c : Char} (h : c ∈ i.chars) : c = '-' ∨ (Value.hexDigit? c).isSome = true := by
  have hd {c : Char} (h : c ∈ hexDigits 30 i.serial) := isSome_hexDigit?_of_mem_hexDigits h
  rw [chars] at h
  generalize hexDigits 30 i.serial = d at h hd
  simp only [List.mem_append, List.mem_cons] at h
  rcases h with (((h | rfl | h) | rfl | rfl | h) | rfl | rfl | h) | rfl | h
  · exact .inr (hd (List.mem_of_mem_take h))
  · exact .inl rfl
  · exact .inr (hd (List.mem_of_mem_drop (List.mem_of_mem_take h)))
  · exact .inl rfl
  · exact .inr rfl
  · exact .inr (hd (List.mem_of_mem_drop (List.mem_of_mem_take h)))
  · exact .inl rfl
  · exact .inr rfl
  · exact .inr (hd (List.mem_of_mem_drop (List.mem_of_mem_take h)))
  · exact .inl rfl
  · exact .inr (hd (List.mem_of_mem_drop h))

end SubscriberId

namespace Text

variable {x y : List Char}

def OneLine (cs : List Char) : Prop := ∀ c ∈ cs, c ≠ '\n' ∧ c ≠ '\r'

instance (cs : List Char) : Decidable (OneLine cs) :=
  List.decidableBAll (fun c => c ≠ '\n' ∧ c ≠ '\r') cs

theorem oneLine_append : OneLine (x ++ y) ↔ OneLine x ∧ OneLine y := List.forall_mem_append

theorem oneLine_of_hexDigits (h : ∀ c ∈ x, (Value.hexDigit? c).isSome = true) : OneLine x := by
  intro c hc
  constructor
  · rintro rfl
    exact absurd (h _ hc) (by decide)
  · rintro rfl
    exact absurd (h _ hc) (by decide)

theorem oneLine_toDigits (n : Nat) : OneLine (Nat.toDigits 10 n) :=
  oneLine_of_hexDigits fun _ => isSome_hexDigit?_of_mem (by decide) (by decide)

theorem oneLine_quotedChar (c : Char) : OneLine (quotedChar c) := by
  by_cases hn : c = '\n'
  · rw [hn]
    decide
  by_cases hr : c = '\r'
  · rw [hr]
    decide
  have hspells := spells_quotedChar c
  generalize quotedChar c = x at hspells
  cases hspells with
  | short e he =>
    refine List.forall_mem_cons.mpr ⟨by decide, List.forall_mem_singleton.mpr ⟨?_, ?_⟩⟩
    · rintro rfl
      cases he
    · rintro rfl
      cases he
  | long _ =>
    have hdigits : OneLine (Nat.toDigits 16 c.toNat) :=
      oneLine_of_hexDigits fun _ => isSome_hexDigit?_of_mem (by decide) (by decide)
    have hopen : OneLine ['\\', 'u', '\x7b'] := by decide
    have hclose : OneLine ['\x7d'] := by decide
    exact oneLine_append.mpr ⟨oneLine_append.mpr ⟨hopen, hdigits⟩, hclose⟩
  | self _ _ => exact List.forall_mem_singleton.mpr ⟨hn, hr⟩

theorem oneLine_quotedChars (cs : List Char) : OneLine (quotedChars cs) := by
  have hquote : OneLine ['"'] := by decide
  refine oneLine_append.mpr ⟨oneLine_append.mpr ⟨hquote, ?_⟩, hquote⟩
  intro c hc
  obtain ⟨d, -, hd⟩ := List.mem_flatMap.mp hc
  exact oneLine_quotedChar d c hd

end Text

theorem SubscriberId.oneLine_text (id : SubscriberId) : OneLine id.text.toList := by
  rw [text, String.toList_ofList]
  intro c hc
  constructor
  · rintro rfl
    exact absurd (mem_chars hc) (by decide)
  · rintro rfl
    exact absurd (mem_chars hc) (by decide)

variable {a b : Moment} {r : Nat}

namespace Event

inductive Draft.IsReport : Draft → Prop where
  | registered (name : String) (id : SubscriberId) : IsReport (.registered name id)
  | unregistered (name : String) (id : SubscriberId) : IsReport (.unregistered name id)
  | ignored : IsReport ⟨.publishedWithoutSubscribers, []⟩
  | published (recipients : Nat) : IsReport (.published recipients)
  | fault (name : String) (id : SubscriberId) (f : SinkFault) : IsReport (.fault name id f)
  | shut : IsReport ⟨.shutdownRequested, []⟩
  | final {d : Draft} : d.IsFinal → IsReport d

def IsReport (e : Event) : Prop := ∃ (d : Draft) (seq time : Nat), d.IsReport ∧ e = d.stamp seq time

theorem isReport_of_mem_stampAll {time seq : Nat} {ds : List Draft} {e : Event}
    (hds : ∀ d ∈ ds, d.IsReport) (he : e ∈ stampAll time seq ds) : e.IsReport := by
  induction ds generalizing seq with
  | nil => cases he
  | cons d ds ih =>
    rcases List.mem_cons.mp he with rfl | he
    · exact ⟨d, seq, time, hds d List.mem_cons_self, rfl⟩
    · exact ih (fun c hc => hds c (List.mem_cons_of_mem d hc)) he

end Event

theorem World.Reports.isReport {w v : World} {ds : List Event.Draft} {n : Nat}
    (hv : w.Reports n ds v) (hds : ∀ d ∈ ds, d.IsReport) (ih : ∀ e ∈ w.events r, e.IsReport) :
    ∀ e ∈ v.events r, e.IsReport := by
  intro e he
  rw [hv.events] at he
  rcases List.mem_append.mp he with he | he
  · exact ih e he
  · split at he
    · exact Event.isReport_of_mem_stampAll hds he
    · cases he

theorem Transition.isReport (h : Transition a b) (ha : a.Sound)
    (ih : ∀ e ∈ a.world.events r, e.IsReport) : ∀ e ∈ b.world.events r, e.IsReport := by
  cases h.relayChange ha with
  | still _ _ hev =>
    rw [hev]
    exact ih
  | enrolled _ _ _ hv =>
    exact hv.isReport (List.forall_mem_singleton.mpr (.registered _ _)) ih
  | withdrawn _ _ _ hv =>
    exact hv.isReport (List.forall_mem_singleton.mpr (.unregistered _ _)) ih
  | ignored _ _ _ hv => exact hv.isReport (List.forall_mem_singleton.mpr .ignored) ih
  | published _ _ _ hv =>
    refine hv.isReport (List.forall_mem_append.mpr ⟨?_, ?_⟩) ih
    · exact List.forall_mem_map.mpr fun d _ => .fault _ _ _
    · exact List.forall_mem_singleton.mpr (.published _)
  | shut _ _ hv =>
    refine hv.isReport (List.forall_mem_cons.mpr ⟨.shut, ?_⟩) ih
    exact List.forall_mem_map.mpr fun id _ => .unregistered _ _
  | faulted _ _ _ _ _ _ _ _ hv =>
    exact hv.isReport (List.forall_mem_singleton.mpr (.fault _ _ _)) ih
  | ended _ _ _ _ _ _ _ hd hv => exact hv.isReport (List.forall_mem_singleton.mpr (.final hd)) ih

theorem Moment.Reached.isReport (ha : a.Reached) : ∀ e ∈ a.world.events r, e.IsReport := by
  induction ha with
  | refl => exact fun e he => absurd he List.not_mem_nil
  | tail hac hcd ih => exact hcd.isReport (Moment.Reached.sound hac) ih

/-- The fields of an event that its line shows. -/
inductive Shown where
  | nameAndId
  | nameAndReason
  | nameAndTimeout
  | recipients
  | reason
  | nothing
deriving DecidableEq

def EventKind.shown : EventKind → Shown
  | .subscriberRegistered | .subscriberUnregistered | .sinkWorkerGone => .nameAndId
  | .sinkFailed | .sinkPanicked | .sinkOverflow => .nameAndReason
  | .sinkTimedOut => .nameAndTimeout
  | .messagePublished => .recipients
  | .graceExceeded => .reason
  | .publishedWithoutSubscribers | .shutdownRequested | .allDrainedWithin => .nothing

namespace Event

variable {e f : Event} {idText : SubscriberId → String}

/-- The kind of an event and the fields that its line shows; the other ones are left out. -/
def printed (e : Event) : Event :=
  match e.kind.shown with
  | .nameAndId => { seq := 0, kind := e.kind, subscriber := e.subscriber, id := e.id }
  | .nameAndReason => { seq := 0, kind := e.kind, subscriber := e.subscriber, reason := e.reason }
  | .nameAndTimeout =>
    { seq := 0, kind := e.kind, subscriber := e.subscriber, timeoutMs := e.timeoutMs }
  | .recipients => { seq := 0, kind := e.kind, recipients := e.recipients }
  | .reason => { seq := 0, kind := e.kind, reason := e.reason }
  | .nothing => { seq := 0, kind := e.kind }

theorem kind_printed (e : Event) : e.printed.kind = e.kind := by
  unfold printed
  split <;> rfl

/-- All that the line shows is there, and the reason that it does not quote is a count. -/
def Complete (e : Event) : Prop :=
  match e.kind.shown with
  | .nameAndId => (∃ name, e.subscriber = some name) ∧ ∃ id, e.id = some id
  | .nameAndReason => (∃ name, e.subscriber = some name) ∧ ∃ text, e.reason = some text
  | .nameAndTimeout => (∃ name, e.subscriber = some name) ∧ ∃ ms, e.timeoutMs = some ms
  | .recipients => ∃ n, e.recipients = some n
  | .reason => ∃ n : Nat, e.reason = some ("pending=" ++ n.repr)
  | .nothing => True

theorem IsReport.complete (h : e.IsReport) : e.Complete := by
  obtain ⟨d, seq, time, hd, rfl⟩ := h
  cases hd with
  | registered name id => exact ⟨⟨name, rfl⟩, id, rfl⟩
  | unregistered name id => exact ⟨⟨name, rfl⟩, id, rfl⟩
  | ignored => trivial
  | published n => exact ⟨capped n, rfl⟩
  | fault name id f =>
    cases f with
    | workerGone => exact ⟨⟨name, rfl⟩, id, rfl⟩
    | timedOut d => exact ⟨⟨name, rfl⟩, capped d.millis, rfl⟩
    | _ => exact ⟨⟨name, rfl⟩, _, rfl⟩
  | shut => trivial
  | final hd =>
    cases hd with
    | drained => trivial
    | exceeded pending => exact ⟨pending, rfl⟩

def tag : EventKind → String
  | .subscriberRegistered => "[registered]"
  | .subscriberUnregistered => "[unregistered]"
  | .messagePublished => "[published]"
  | .publishedWithoutSubscribers => "[no-subscribers]"
  | .sinkFailed => "[sink-failed]"
  | .sinkPanicked => "[sink-panicked]"
  | .sinkTimedOut => "[sink-timed-out]"
  | .sinkOverflow => "[sink-overflow]"
  | .sinkWorkerGone => "[sink-worker-gone]"
  | .shutdownRequested => "[shutdown-requested]"
  | .allDrainedWithin => "[all-drained-within-grace]"
  | .graceExceeded => "[grace-exceeded]"

def nameText (e : Event) : String := " subscriber=" ++ quote (e.subscriber.getD "unknown")

def shownText (idText : SubscriberId → String) (e : Event) : String :=
  match e.kind.shown with
  | .nameAndId => e.nameText ++ (" id=" ++ (e.id.map idText).getD "")
  | .nameAndReason => e.nameText ++ (" reason=" ++ quote (e.reason.getD "unknown"))
  | .nameAndTimeout => e.nameText ++ (" timeout_ms=" ++ optionalCount e.timeoutMs)
  | .recipients => " recipients=" ++ (e.recipients.getD 0).toNat.repr
  | .reason => " " ++ e.reason.getD "unknown"
  | .nothing => ""

theorem line_eq (idText : SubscriberId → String) (e : Event) :
    e.line idText = tag e.kind ++ e.shownText idText := by
  have hpublished (t : String) :
      "[published] recipients=" ++ t = "[published]" ++ (" recipients=" ++ t) := by
    rw [← String.append_assoc]
    congr 1
  have hexceeded (t : String) : "[grace-exceeded] " ++ t = "[grace-exceeded]" ++ (" " ++ t) := by
    rw [← String.append_assoc]
    congr 1
  unfold line shownText
  cases e.kind with
  | messagePublished => exact hpublished _
  | graceExceeded => exact hexceeded _
  | publishedWithoutSubscribers | shutdownRequested | allDrainedWithin =>
    exact String.append_empty.symm
  | _ => exact String.append_assoc

theorem takeWhile_tag (k : EventKind) (r : List Char) :
    ((tag k).toList ++ r).takeWhile (· != ']') = (tag k).toList.dropLast := by
  cases k <;> rfl

theorem tag_append_inj {k l : EventKind} {r s : List Char}
    (h : (tag k).toList ++ r = (tag l).toList ++ s) : k = l ∧ r = s := by
  have hall : ∀ k ∈ EventKind.all, ∀ l ∈ EventKind.all,
      (tag k).toList.dropLast = (tag l).toList.dropLast → k = l := by decide
  have hkl : k = l := by
    refine hall k k.mem_all l l.mem_all ?_
    rw [← takeWhile_tag k r, h, takeWhile_tag]
  rw [hkl] at h
  exact ⟨hkl, List.append_cancel_left h⟩

theorem quote_append_inj {x y s t : String} (h : quote x ++ s = quote y ++ t) : x = y ∧ s = t := by
  have hchars := congrArg String.toList h
  rw [String.toList_append, String.toList_append, toList_quote, toList_quote] at hchars
  obtain ⟨hxy, hst⟩ := quotedChars_append_inj hchars
  exact ⟨String.toList_inj.mp hxy, String.toList_inj.mp hst⟩

theorem quote_injective : Function.Injective quote := fun x y h =>
  (quote_append_inj (s := "") (t := "") (by rw [h])).1

theorem nameText_append_inj {s t : String} (h : e.nameText ++ s = f.nameText ++ t) :
    e.subscriber.getD "unknown" = f.subscriber.getD "unknown" ∧ s = t := by
  rw [nameText, nameText, String.append_assoc, String.append_assoc] at h
  exact quote_append_inj ((String.append_right_inj _).mp h)

theorem subscriber_eq_of_nameText {s t : String} (he : ∃ name, e.subscriber = some name)
    (hf : ∃ name, f.subscriber = some name) (h : e.nameText ++ s = f.nameText ++ t) :
    e.subscriber = f.subscriber ∧ s = t := by
  obtain ⟨x, hx⟩ := he
  obtain ⟨y, hy⟩ := hf
  obtain ⟨hname, hst⟩ := nameText_append_inj h
  rw [hx, hy] at hname ⊢
  exact ⟨congrArg some hname, hst⟩

theorem optionalCount_some_injective : Function.Injective fun n => optionalCount (some n) := by
  intro m n h
  have hdigits := (String.append_right_inj _).mp ((String.append_left_inj _).mp h)
  exact UInt32.toNat_inj.mp (repr_injective hdigits)

/-- The line of a complete event tells its kind and every field that it shows. -/
theorem printed_eq_of_line_eq (hid : Function.Injective idText) (he : e.Complete)
    (hf : f.Complete) (h : e.line idText = f.line idText) : e.printed = f.printed := by
  have hchars := congrArg String.toList h
  rw [line_eq, line_eq, String.toList_append, String.toList_append] at hchars
  obtain ⟨hkind, htext⟩ := tag_append_inj hchars
  replace htext := String.toList_inj.mp htext
  unfold Complete at he hf
  unfold shownText at htext
  unfold printed
  rw [← hkind] at hf htext ⊢
  cases hshown : e.kind.shown <;> simp only [hshown] at he hf htext ⊢
  case nameAndId =>
    obtain ⟨hx, i, hi⟩ := he
    obtain ⟨hy, j, hj⟩ := hf
    obtain ⟨hname, hrest⟩ := subscriber_eq_of_nameText hx hy htext
    rw [hi, hj] at hrest
    have hij : i = j := hid ((String.append_right_inj _).mp hrest)
    rw [hname, hi, hj, hij]
  case nameAndReason =>
    obtain ⟨hx, t, ht⟩ := he
    obtain ⟨hy, u, hu⟩ := hf
    obtain ⟨hname, hrest⟩ := subscriber_eq_of_nameText hx hy htext
    rw [ht, hu] at hrest
    have htu : t = u := quote_injective ((String.append_right_inj _).mp hrest)
    rw [hname, ht, hu, htu]
  case nameAndTimeout =>
    obtain ⟨hx, m, hm⟩ := he
    obtain ⟨hy, n, hn⟩ := hf
    obtain ⟨hname, hrest⟩ := subscriber_eq_of_nameText hx hy htext
    rw [hm, hn] at hrest
    have hmn : m = n := optionalCount_some_injective ((String.append_right_inj _).mp hrest)
    rw [hname, hm, hn, hmn]
  case recipients =>
    obtain ⟨m, hm⟩ := he
    obtain ⟨n, hn⟩ := hf
    rw [hm, hn] at htext
    have hmn : m = n := UInt32.toNat_inj.mp (repr_injective ((String.append_right_inj _).mp htext))
    rw [hm, hn, hmn]
  case reason =>
    obtain ⟨m, hm⟩ := he
    obtain ⟨n, hn⟩ := hf
    rw [hm, hn] at htext
    have hmn : "pending=" ++ m.repr = "pending=" ++ n.repr := (String.append_right_inj _).mp htext
    rw [hm, hn, hmn]

theorem oneLine_quote (s : String) : OneLine (quote s).toList := by
  rw [toList_quote]
  exact oneLine_quotedChars s.toList

theorem oneLine_repr (n : Nat) : OneLine n.repr.toList := by
  rw [Nat.toList_repr]
  exact oneLine_toDigits n

theorem oneLine_toList_append {s t : String} :
    OneLine (s ++ t).toList ↔ OneLine s.toList ∧ OneLine t.toList := by
  rw [String.toList_append, oneLine_append]

theorem oneLine_tag (k : EventKind) : OneLine (tag k).toList := by
  cases k <;> decide

theorem oneLine_nameText (e : Event) : OneLine e.nameText.toList :=
  oneLine_toList_append.mpr ⟨by decide, oneLine_quote _⟩

theorem oneLine_optionalCount (n : Option UInt32) : OneLine (optionalCount n).toList := by
  cases n with
  | none => decide
  | some n =>
    refine oneLine_toList_append.mpr ⟨oneLine_toList_append.mpr ⟨by decide, oneLine_repr _⟩, ?_⟩
    decide

theorem oneLine_line (hid : ∀ id, OneLine (idText id).toList) (he : e.Complete) :
    OneLine (e.line idText).toList := by
  rw [line_eq]
  refine oneLine_toList_append.mpr ⟨oneLine_tag e.kind, ?_⟩
  unfold Complete at he
  unfold shownText
  cases hshown : e.kind.shown <;> simp only [hshown] at he ⊢
  case nameAndId =>
    obtain ⟨-, i, hi⟩ := he
    refine oneLine_toList_append.mpr ⟨oneLine_nameText e, ?_⟩
    rw [hi]
    exact oneLine_toList_append.mpr ⟨by decide, hid i⟩
  case nameAndReason =>
    refine oneLine_toList_append.mpr ⟨oneLine_nameText e, ?_⟩
    exact oneLine_toList_append.mpr ⟨by decide, oneLine_quote _⟩
  case nameAndTimeout =>
    refine oneLine_toList_append.mpr ⟨oneLine_nameText e, ?_⟩
    exact oneLine_toList_append.mpr ⟨by decide, oneLine_optionalCount _⟩
  case recipients => exact oneLine_toList_append.mpr ⟨by decide, oneLine_repr _⟩
  case reason =>
    obtain ⟨n, hn⟩ := he
    rw [hn]
    refine oneLine_toList_append.mpr ⟨by decide, ?_⟩
    exact oneLine_toList_append.mpr ⟨by decide, oneLine_repr n⟩
  case nothing => decide

def log (idText : SubscriberId → String) (es : List Event) : String :=
  String.intercalate (String.singleton '\n') (es.map (line idText))

end Event

open Event

/-- Each event of a relay makes one line of the log, and the line tells its kind and the fields
that lines of that kind show. This holds of any two events, of one run or of two, whatever names
and reasons they carry and however identifiers are written, as long as each has a text of its own
without line ends. -/
theorem log_lines_tell {b : Moment} {s : Nat} {idText : SubscriberId → String}
    (hid : Function.Injective idText) (hplain : ∀ id, OneLine (idText id).toList)
    (ha : a.Reached) (hb : b.Reached) {e f : Event} (he : e ∈ a.world.events r)
    (hf : f ∈ b.world.events s) :
    '\n' ∉ (e.line idText).toList ∧ '\r' ∉ (e.line idText).toList ∧
    ((Event.log idText (a.world.events r)).split '\n').toList.map (·.copy) =
      (a.world.events r).map (line idText) ∧
    (e.line idText = f.line idText → e.level = f.level ∧ e.printed = f.printed) := by
  have hlines : ∀ e ∈ a.world.events r, OneLine (e.line idText).toList := fun e he =>
    oneLine_line hplain (ha.isReport e he).complete
  refine ⟨fun hc => (hlines e he _ hc).1 rfl, fun hc => (hlines e he _ hc).2 rfl, ?_, fun h => ?_⟩
  · have hne : (a.world.events r).map (line idText) ≠ [] :=
      fun hnil => List.ne_nil_of_mem he (List.map_eq_nil_iff.mp hnil)
    have hsplit := String.toList_split_intercalate (c := '\n')
      (l := (a.world.events r).map (line idText))
      (List.forall_mem_map.mpr fun e he hc => (hlines e he _ hc).1 rfl)
    rw [if_neg hne] at hsplit
    exact hsplit
  · have hprinted : e.printed = f.printed :=
      printed_eq_of_line_eq hid (ha.isReport e he).complete (hb.isReport f hf).complete h
    have hkind : e.kind = f.kind := by
      rw [← kind_printed, hprinted, kind_printed]
    exact ⟨by rw [level, hkind, level], hprinted⟩

/-- A subscriber whose name pretends to be an identifier and another line. -/
def Moment.forged : Moment :=
  Moment.opening {} [{ key := "sink", name := "chat\" id=0\n[published] recipients=2" }]

theorem log_lines_tell_forged :
    let e := (Draft.registered "chat\" id=0\n[published] recipients=2" ⟨0⟩).stamp 0 0
    let f := (Draft.registered "chat" ⟨0⟩).stamp 0 0
    '\n' ∉ (e.line SubscriberId.text).toList ∧
      e.line SubscriberId.text ≠ f.line SubscriberId.text := by
  intro e f
  have hforged : Moment.forged.Reached := reached_opening {} (by decide) _
  have hplain : (Moment.opening {} [{ key := "sink", name := "chat" }]).Reached :=
    reached_opening {} (by decide) _
  obtain ⟨hline, -, -, hprinted⟩ := log_lines_tell SubscriberId.text_injective
    SubscriberId.oneLine_text hforged hplain (r := 0) (s := 0) (e := e) (f := f) (by decide)
    (by decide)
  exact ⟨hline, fun h => absurd (hprinted h).2 (by decide)⟩

end Fanout
