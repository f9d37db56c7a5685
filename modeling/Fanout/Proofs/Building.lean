import Fanout.Proofs.Bytes
import Fanout.Proofs.Sameness

/-! # Ways to build a message

A message comes from a list of pairs: sorted at once, set one after the other, or read from an
object. All ways end in the fields with the last value of each key, so a message is known by what
it holds under each key, and two of them are equal when they agree there.
-/
namespace Fanout

namespace Value

variable {key : String} {f g : String × Value} {pairs fields : List (String × Value)}

def keepLast : List (String × Value) → List (String × Value)
  | [] => []
  | [f] => [f]
  | f :: g :: rest => if f.1 = g.1 then keepLast (g :: rest) else f :: keepLast (g :: rest)

def KeysSorted (fields : List (String × Value)) : Prop :=
  fields.Pairwise fun f g => f.1 ≤ g.1

def keyLE (f g : String × Value) : Bool := f.1 ≤ g.1

def sortKeys (pairs : List (String × Value)) : List (String × Value) := pairs.mergeSort keyLE

theorem keepLast_sublist (fields : List (String × Value)) : (keepLast fields).Sublist fields := by
  fun_induction keepLast fields with
  | case1 => exact List.Sublist.refl _
  | case2 => exact List.Sublist.refl _
  | case3 f g rest _ ih => exact ih.cons f
  | case4 f g rest _ ih => exact ih.cons_cons f

theorem ascending_keepLast (h : KeysSorted fields) : Ascending (keepLast fields) := by
  fun_induction keepLast fields with
  | case1 => exact List.Pairwise.nil
  | case2 => exact List.pairwise_singleton _ _
  | case3 f g rest _ ih => exact ih (List.pairwise_cons.mp h).2
  | case4 f g rest hne ih =>
    obtain ⟨hf, hrest⟩ := List.pairwise_cons.mp h
    refine List.pairwise_cons.mpr ⟨fun x hx => ?_, ih hrest⟩
    have hfg : f.1 < g.1 := Std.lt_of_le_of_ne (hf g List.mem_cons_self) hne
    rcases List.mem_cons.mp ((keepLast_sublist _).subset hx) with rfl | hx
    · exact hfg
    · exact Std.lt_of_lt_of_le hfg ((List.pairwise_cons.mp hrest).1 x hx)

theorem lookup_keepLast (h : KeysSorted fields) (key : String) :
    lookup key (keepLast fields) = lastOf key fields := by
  fun_induction keepLast fields with
  | case1 => rfl
  | case2 f => rw [lookup_cons, lookup_nil, lastOf_singleton]
  | case3 f g rest heq ih =>
    rw [ih (List.pairwise_cons.mp h).2, lastOf_cons key f]
    split
    · -- the neighbour has the key as well, so the last of its values comes later
      rename_i hkey
      have hmem : key ∈ (g :: rest).map (·.1) := by
        rw [← hkey, heq]
        exact List.mem_cons_self
      cases hlast : lastOf key (g :: rest) with
      | none => exact absurd hmem (lastOf_eq_none_iff.mp hlast)
      | some v => rfl
    · exact Option.or_none.symm
  | case4 f g rest hne ih =>
    obtain ⟨hf, hrest⟩ := List.pairwise_cons.mp h
    rw [lookup_cons, ih hrest, lastOf_cons key f]
    split
    · -- all later keys are greater
      rename_i hkey
      have hfg : f.1 < g.1 := Std.lt_of_le_of_ne (hf g List.mem_cons_self) hne
      have hnone : lastOf key (g :: rest) = none := by
        rw [lastOf_eq_none_iff, List.mem_map]
        rintro ⟨x, hx, rfl⟩
        rcases List.mem_cons.mp hx with rfl | hx
        · exact hne hkey
        · have hgx := (List.pairwise_cons.mp hrest).1 x hx
          exact Std.lt_irrefl (hkey ▸ Std.lt_of_lt_of_le hfg hgx)
      rw [hnone, Option.none_or]
    · exact Option.or_none.symm

theorem keyLE_trans (f g h : String × Value) (hfg : keyLE f g) (hgh : keyLE g h) : keyLE f h :=
  decide_eq_true (String.le_trans (of_decide_eq_true hfg) (of_decide_eq_true hgh))

theorem keyLE_total (f g : String × Value) : keyLE f g || keyLE g f := by
  rw [Bool.or_eq_true]
  exact (String.le_total f.1 g.1).imp (decide_eq_true ·) (decide_eq_true ·)

theorem keysSorted_sortKeys (pairs : List (String × Value)) : KeysSorted (sortKeys pairs) :=
  (List.pairwise_mergeSort keyLE_trans keyLE_total pairs).imp of_decide_eq_true

theorem filter_sortKeys (key : String) (pairs : List (String × Value)) :
    (sortKeys pairs).filter (·.1 == key) = pairs.filter (·.1 == key) := by
  have hone : (pairs.filter (·.1 == key)).Pairwise (keyLE · ·) := by
    refine List.pairwise_of_forall_mem_list fun f hf g hg => ?_
    rw [List.mem_filter, beq_iff_eq] at hf hg
    rw [keyLE, hf.2, hg.2]
    exact decide_eq_true (String.le_refl key)
  have hsub : (pairs.filter (·.1 == key)).Sublist (sortKeys pairs) :=
    List.sublist_mergeSort keyLE_trans keyLE_total hone List.filter_sublist
  have hfiltered := hsub.filter (·.1 == key)
  rw [List.filter_filter] at hfiltered
  simp only [Bool.and_self] at hfiltered
  have hperm : ((sortKeys pairs).filter (·.1 == key)).Perm (pairs.filter (·.1 == key)) :=
    (List.mergeSort_perm pairs keyLE).filter _
  exact (hfiltered.eq_of_length hperm.length_eq.symm).symm

end Value

namespace Message

open Value

variable {m n : Message} {key : String} {v w : Value} {pairs ps qs fields : List (String × Value)}

theorem ascending (m : Message) : Ascending m.fields := m.ordered.1

theorem eq_of_fields_eq (h : m.fields = n.fields) : m = n := by
  cases m
  cases n
  cases h
  rfl

theorem eq_of_get?_eq (h : ∀ key, m.get? key = n.get? key) : m = n :=
  eq_of_fields_eq (m.ascending.eq_of_lookup_eq n.ascending h)

theorem pairwise_bytes_lt (m : Message) :
    m.toList.Pairwise fun f g => Text.bytes f.1 < Text.bytes g.1 :=
  m.ascending.imp Text.bytes_lt_bytes_iff.mpr

theorem get?_set (m : Message) (key k : String) (value : Value) :
    (m.set key value).get? k = if key = k then some value.order else m.get? k :=
  lookup_insert key k value.order m.fields

theorem same_iff_agree : m.same n = true ↔ ∀ key, Agree (m.get? key) (n.get? key) := by
  have hfields : m.same n = true ↔ unsignedFields m.fields = unsignedFields n.fields := by
    rw [same, same_iff_unsigned_eq, toValue, toValue, unsigned, unsigned, Value.object.injEq]
  have hlookup (key : String) : Agree (m.get? key) (n.get? key) ↔
      lookup key (unsignedFields m.fields) = lookup key (unsignedFields n.fields) := by
    rw [agree_iff, lookup_unsignedFields, lookup_unsignedFields]
    rfl
  simp only [hfields, hlookup]
  exact ⟨fun h key => h ▸ rfl,
    m.ascending.unsignedFields.eq_of_lookup_eq n.ascending.unsignedFields⟩

theorem same_set (h : m.same n = true) (hv : v.order.same w.order = true) (key : String) :
    (m.set key v).same (n.set key w) = true := by
  rw [same_iff_agree] at h ⊢
  intro k
  rw [get?_set, get?_set]
  split
  · exact .some hv
  · exact h k

theorem equivalence_same : Equivalence fun m n : Message => m.same n = true where
  refl m := same_refl m.toValue
  symm := same_symm
  trans := same_trans

def collect (pairs : List (String × Value)) : Message :=
  ⟨keepLast (sortKeys (pairs.map fun f => (f.1, f.2.order))), by
    refine ⟨ascending_keepLast (keysSorted_sortKeys _), orderedFields_iff.mpr fun f hf => ?_⟩
    have hmem := (List.mergeSort_perm _ _).subset ((keepLast_sublist _).subset hf)
    obtain ⟨g, -, rfl⟩ := List.mem_map.mp hmem
    exact ordered_order g.2⟩

theorem fields_ofList (pairs : List (String × Value)) :
    (ofList pairs).fields = orderFields pairs [] := by
  induction pairs using List.reverseRecOn with
  | nil => rfl
  | append_singleton pairs f ih =>
    rw [ofList, List.foldl_append, orderFields_append, ← ih]
    rfl

theorem ofValue?_object (pairs : List (String × Value)) :
    ofValue? (.object pairs) = .ok (ofList pairs) :=
  congrArg Except.ok (eq_of_fields_eq (fields_ofList pairs).symm)

theorem get?_ofList (pairs : List (String × Value)) (key : String) :
    (ofList pairs).get? key = (lastOf key pairs).map order := by
  rw [get?, fields_ofList, lookup_orderFields]

theorem get?_collect (pairs : List (String × Value)) (key : String) :
    (collect pairs).get? key = (lastOf key pairs).map order := by
  rw [← lastOf_map_order, get?, collect, lookup_keepLast (keysSorted_sortKeys _), lastOf, lastOf,
    filter_sortKeys]

theorem ofList_congr (h : ∀ key, lastOf key ps = lastOf key qs) : ofList ps = ofList qs :=
  eq_of_get?_eq fun key => by rw [get?_ofList, get?_ofList, h]

theorem mem_keys_ofList : key ∈ (ofList pairs).keys ↔ key ∈ pairs.map (·.1) := by
  have hnone : (ofList pairs).get? key = none ↔ lastOf key pairs = none := by
    rw [get?_ofList, Option.map_eq_none_iff]
  rw [get?, lookup_eq_none_iff, lastOf_eq_none_iff] at hnone
  exact not_iff_not.mp hnone

theorem size_ofList (pairs : List (String × Value)) :
    (ofList pairs).size = (pairs.map (·.1)).toFinset.card := by
  have hkeys : (ofList pairs).keys.toFinset = (pairs.map (·.1)).toFinset := by
    ext key
    rw [List.mem_toFinset, List.mem_toFinset, mem_keys_ofList]
  have hnodup : (ofList pairs).keys.Nodup := (ofList pairs).ascending.nodup_keys
  rw [← hkeys, List.toFinset_card_of_nodup hnodup]
  rw [keys, List.length_map, size]

theorem ofValue?_toValue (m : Message) : ofValue? m.toValue = .ok m := by
  rw [toValue, ofValue?_object]
  refine congrArg _ (eq_of_get?_eq fun key => ?_)
  have horder : (Value.object m.fields).order = .object m.fields := m.ordered.order_eq
  rw [order, Value.object.injEq] at horder
  rw [get?, fields_ofList, horder, get?]

theorem same_ofList_iff : (ofList ps).same (ofList qs) = true ↔
    ∀ key, Agree ((lastOf key ps).map order) ((lastOf key qs).map order) := by
  simp only [same_iff_agree, get?_ofList]

/-- Wherever one message has an integer, an equal one has no float. -/
theorem not_same_of_at? {path : List Step} {i : Whole} {x : Double}
    (hm : m.toValue.at? path = some (.number (.whole i)))
    (hn : n.toValue.at? path = some (.number (.float x))) : m.same n = false := by
  rw [← Bool.not_eq_true]
  intro hsame
  have hagree := at?_same hsame path
  rw [hm, hn, Agree, Option.rel_some_some] at hagree
  exact absurd hagree Bool.false_ne_true

theorem same_of_put_zero {path : List Step} {b c : Bool}
    (hm : m.toValue.at? path = some (.number (.float (.zero b))))
    (hn : n.toValue = put (.number (.float (.zero c))) path m.toValue) : m.same n = true := by
  rw [same, hn]
  exact same_put hm (Double.same_zero b c)

/-- A message stands for a list of pairs: every way to build one from them leads to it, and it
holds the last value of each key. -/
structure StandsFor (m : Message) (pairs : List (String × Value)) : Prop where
  collected : collect pairs = m
  folded : pairs.foldl (fun m f => m.set f.1 f.2) empty = m
  read : ∀ fields : List (String × Value), (fields.map (·.1)).Nodup →
    (∀ key, lookup key fields = lastOf key pairs) → ofValue? (.object fields) = .ok m
  readPairs : ofValue? (.object pairs) = .ok m
  get? : ∀ key, m.get? key = (lastOf key pairs).map order
  getOrdered : (∀ f ∈ pairs, f.2.Ordered) → ∀ key, m.get? key = lastOf key pairs
  size : m.size = (pairs.map (·.1)).toFinset.card

theorem standsFor_ofList (pairs : List (String × Value)) : (ofList pairs).StandsFor pairs where
  collected := eq_of_get?_eq fun key => by rw [get?_collect, get?_ofList]
  folded := rfl
  read fields hnodup hfields := by
    rw [ofValue?_object]
    refine congrArg _ (ofList_congr fun key => ?_)
    rw [lastOf_eq_lookup hnodup, hfields]
  readPairs := ofValue?_object pairs
  get? := get?_ofList pairs
  getOrdered hordered key := by
    rw [get?_ofList]
    cases hlast : lastOf key pairs with
    | none => rfl
    | some v => exact congrArg some (hordered _ (mem_of_lastOf hlast)).order_eq
  size := size_ofList pairs

/-- All ways of building a message agree, whatever the order of the pairs and however often a key
comes up. A message has its keys in the order of their bytes and is read back from its own value.
Equality is an equivalence that setting and getting respect, and deep inside a message integers
and floats differ while zeros do not. -/
theorem builds_agree :
    (∀ pairs, (ofList pairs).StandsFor pairs) ∧
    (∀ ps qs, (ofList ps).same (ofList qs) = true ↔
      ∀ key, Agree ((lastOf key ps).map order) ((lastOf key qs).map order)) ∧
    (∀ m : Message, (m.keys.Pairwise fun k l => Text.bytes k < Text.bytes l) ∧
      (m.toList.Pairwise fun f g => Text.bytes f.1 < Text.bytes g.1) ∧
      ofValue? m.toValue = .ok m) ∧
    (Equivalence fun m n : Message => m.same n = true) ∧
    (∀ (m n : Message) (key : String) (v w : Value), m.same n = true →
      v.order.same w.order = true → (m.set key v).same (n.set key w) = true) ∧
    (∀ m n : Message, m.same n = true ↔ ∀ key, Agree (m.get? key) (n.get? key)) ∧
    (∀ (m n : Message) (path : List Step) (i : Whole) (x : Double),
      m.toValue.at? path = some (.number (.whole i)) →
      n.toValue.at? path = some (.number (.float x)) → m.same n = false) ∧
    (∀ (m n : Message) (path : List Step) (b c : Bool),
      m.toValue.at? path = some (.number (.float (.zero b))) →
      n.toValue = put (.number (.float (.zero c))) path m.toValue → m.same n = true) := by
  refine ⟨standsFor_ofList, fun _ _ => same_ofList_iff, fun m => ⟨?_, m.pairwise_bytes_lt,
    ofValue?_toValue m⟩, equivalence_same, fun _ _ key _ _ h hv => same_set h hv key,
    fun _ _ => same_iff_agree, fun _ _ _ _ _ => not_same_of_at?,
    fun _ _ _ _ _ => same_of_put_zero⟩
  exact List.pairwise_map.mpr m.pairwise_bytes_lt

/-- A key that comes up twice, and a zero in a list under the other one. -/
theorem builds_agree_repeated :
    ofValue? (.object [("b", .null), ("a", .array [.number (.float (.zero true))])]) =
      .ok (ofList [("b", .ofNat 1), ("a", .array [.number (.float (.zero true))]), ("b", .null)]) ∧
    (ofList [("b", .ofNat 1), ("a", .array [.number (.float (.zero true))]), ("b", .null)]).size =
      2 ∧
    (ofList [("b", .ofNat 1), ("a", .array [.number (.float (.zero true))]), ("b", .null)]).same
      (ofList [("a", .array [.number (.float (.zero false))]), ("b", .null)]) = true := by
  obtain ⟨stands, -, -, -, -, -, -, samePut⟩ := builds_agree
  refine ⟨(stands _).read _ (by decide) fun key => ?_, (stands _).size.trans (by decide),
    samePut _ _ [.key "a", .index 0] true false (by rfl) (by rfl)⟩
  simp only [lookup_cons, lookup_nil, lastOf_cons, lastOf_nil, Option.none_or]
  grind

end Message
end Fanout
