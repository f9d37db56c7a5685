import Mathlib.Data.Finset.Card
import Mathlib.Data.List.Induction
import Mathlib.Tactic.SplitIfs
import Fanout.Message

/-! # Fields of an object

An ascending list of fields is determined by what it holds under each key. A list of pairs in any
order, keys repeated or not, stands for the values that come last under their keys: setting the
pairs one after the other keeps these, and so does sorting the pairs and dropping all but the last
of each key.
-/
namespace Fanout.Value

variable {key k : String} {v value : Value} {fs gs fields pairs rest : List (String × Value)}
  {f g : String × Value}

@[simp] theorem lookup_nil (key : String) : lookup key [] = none := rfl

theorem lookup_cons (key : String) (f : String × Value) (rest : List (String × Value)) :
    lookup key (f :: rest) = if f.1 = key then some f.2 else lookup key rest := by
  rw [lookup, List.find?_cons, lookup]
  by_cases h : f.1 = key
  · rw [if_pos h, h, beq_self_eq_true]
    rfl
  · rw [if_neg h, beq_false_of_ne h]

theorem lookup_insert (key k : String) (value : Value) (fields : List (String × Value)) :
    lookup k (insert key value fields) = if key = k then some value else lookup k fields := by
  induction fields with
  | nil => rw [insert, lookup_cons]
  | cons f rest ih =>
    rw [insert]
    split
    · rw [lookup_cons]
    · split
      · rename_i heq
        rw [lookup_cons, lookup_cons, ← heq]
        split <;> rfl
      · rename_i hne
        rw [lookup_cons, ih, lookup_cons]
        by_cases hf : f.1 = k
        · rw [if_pos hf, if_pos hf, if_neg fun h => hne (h.trans hf.symm)]
        · rw [if_neg hf, if_neg hf]

theorem mem_of_lookup (h : lookup key fields = some value) : (key, value) ∈ fields := by
  obtain ⟨f, hf, rfl⟩ := Option.map_eq_some_iff.mp h
  have hkey : f.1 = key := by simpa using List.find?_some hf
  exact hkey ▸ List.mem_of_find?_eq_some hf

theorem lookup_eq_none_iff : lookup key fields = none ↔ key ∉ fields.map (·.1) := by
  rw [lookup, Option.map_eq_none_iff, List.find?_eq_none]
  simp only [beq_iff_eq, List.mem_map, not_exists, not_and]

theorem lookup_of_mem (h : (fields.map (·.1)).Nodup) (hf : f ∈ fields) :
    lookup f.1 fields = some f.2 := by
  induction fields with
  | nil => exact absurd hf List.not_mem_nil
  | cons g rest ih =>
    obtain ⟨hfresh, hrest⟩ := List.nodup_cons.mp h
    rw [lookup_cons]
    rcases List.mem_cons.mp hf with rfl | hf
    · exact if_pos rfl
    · have hmem : f.1 ∈ rest.map (·.1) := List.mem_map_of_mem hf
      rw [if_neg (ne_of_mem_of_not_mem hmem hfresh).symm]
      exact ih hrest hf

theorem Ascending.nodup_keys (h : Ascending fields) : (fields.map (·.1)).Nodup := by
  refine List.pairwise_map.mpr (List.Pairwise.imp ?_ h)
  intro f g hlt heq
  rw [heq] at hlt
  exact Std.lt_irrefl hlt

theorem Ascending.nodup (h : Ascending fields) : fields.Nodup :=
  List.Nodup.of_map _ h.nodup_keys

theorem Ascending.lookup_eq_some_iff (h : Ascending fields) :
    lookup key fields = some value ↔ (key, value) ∈ fields :=
  ⟨mem_of_lookup, fun hf => lookup_of_mem h.nodup_keys hf⟩

theorem Ascending.eq_of_lookup_eq (hf : Ascending fs) (hg : Ascending gs)
    (h : ∀ key, lookup key fs = lookup key gs) : fs = gs := by
  have hperm : fs.Perm gs := (List.perm_ext_iff_of_nodup hf.nodup hg.nodup).mpr fun f => by
    rw [← Prod.mk.eta (p := f), ← hf.lookup_eq_some_iff, ← hg.lookup_eq_some_iff, h]
  exact hperm.eq_of_pairwise
    (fun _ _ _ _ hab hba => absurd (Std.lt_trans hab hba) Std.lt_irrefl) hf hg

def lastOf (key : String) (pairs : List (String × Value)) : Option Value :=
  ((pairs.filter (·.1 == key)).getLast?).map (·.2)

@[simp] theorem lastOf_nil (key : String) : lastOf key [] = none := rfl

theorem lastOf_append (key : String) (fs gs : List (String × Value)) :
    lastOf key (fs ++ gs) = (lastOf key gs).or (lastOf key fs) := by
  rw [lastOf, List.filter_append, List.getLast?_append, Option.map_or]
  rfl

theorem lastOf_singleton (key : String) (f : String × Value) :
    lastOf key [f] = if f.1 = key then some f.2 else none := by
  rw [lastOf]
  by_cases h : f.1 = key
  · simp [h]
  · simp [h]

theorem lastOf_cons (key : String) (f : String × Value) (rest : List (String × Value)) :
    lastOf key (f :: rest) = (lastOf key rest).or (if f.1 = key then some f.2 else none) := by
  rw [← lastOf_singleton, ← lastOf_append]
  rfl

theorem lastOf_concat (key : String) (pairs : List (String × Value)) (f : String × Value) :
    lastOf key (pairs ++ [f]) = if f.1 = key then some f.2 else lastOf key pairs := by
  rw [lastOf_append, lastOf_singleton]
  split
  · rfl
  · exact Option.none_or

theorem lastOf_eq_none_iff : lastOf key pairs = none ↔ key ∉ pairs.map (·.1) := by
  rw [lastOf, Option.map_eq_none_iff, List.getLast?_eq_none_iff, List.filter_eq_nil_iff]
  simp only [beq_iff_eq, List.mem_map, not_exists, not_and]

theorem mem_of_lastOf (h : lastOf key pairs = some value) : (key, value) ∈ pairs := by
  obtain ⟨f, hf, rfl⟩ := Option.map_eq_some_iff.mp h
  obtain ⟨hmem, hkey⟩ := List.mem_filter.mp (List.mem_of_getLast? hf)
  exact beq_iff_eq.mp hkey ▸ hmem

theorem lastOf_eq_lookup (h : (pairs.map (·.1)).Nodup) : lastOf key pairs = lookup key pairs := by
  induction pairs with
  | nil => rfl
  | cons f rest ih =>
    obtain ⟨hfresh, hrest⟩ := List.nodup_cons.mp h
    rw [lastOf_cons, lookup_cons, ih hrest]
    split
    · rename_i hkey
      rw [lookup_eq_none_iff.mpr (hkey ▸ hfresh), Option.none_or]
    · exact Option.or_none

theorem lastOf_map_order (key : String) (pairs : List (String × Value)) :
    lastOf key (pairs.map fun f => (f.1, f.2.order)) = (lastOf key pairs).map order := by
  induction pairs with
  | nil => rfl
  | cons f rest ih =>
    rw [List.map_cons, lastOf_cons, ih, lastOf_cons, Option.map_or, apply_ite (Option.map order)]
    rfl

theorem orderFields_append (fs gs fields : List (String × Value)) :
    orderFields (fs ++ gs) fields = orderFields gs (orderFields fs fields) := by
  induction fs generalizing fields with
  | nil => rfl
  | cons f rest ih => exact ih _

theorem lookup_orderFields (key : String) (pairs : List (String × Value)) :
    lookup key (orderFields pairs []) = (lastOf key pairs).map order := by
  induction pairs using List.reverseRecOn with
  | nil => rfl
  | append_singleton pairs f ih =>
    have hset : orderFields (pairs ++ [f]) [] =
        insert f.1 f.2.order (orderFields pairs []) := orderFields_append pairs [f] []
    rw [hset, lookup_insert, ih, lastOf_concat]
    split <;> rfl

theorem ascending_orderFields (pairs : List (String × Value)) : Ascending (orderFields pairs []) :=
  (ordered_orderFields pairs [] List.Pairwise.nil trivial).1

theorem orderedItems_iff {items : List Value} : OrderedItems items ↔ ∀ v ∈ items, v.Ordered := by
  induction items with
  | nil => simp [OrderedItems]
  | cons v rest ih => simp [OrderedItems, ih]

theorem orderItems_eq_map (items : List Value) : orderItems items = items.map order := by
  induction items with
  | nil => rfl
  | cons v rest ih => rw [orderItems, ih, List.map_cons]

@[elab_as_elim]
theorem tree_induction {motive : Value → Prop} (null : motive .null)
    (bool : ∀ b, motive (.bool b)) (number : ∀ n, motive (.number n))
    (string : ∀ s, motive (.string s))
    (array : ∀ items, (∀ v ∈ items, motive v) → motive (.array items))
    (object : ∀ fields, (∀ f ∈ fields, motive f.2) → motive (.object fields)) (v : Value) :
    motive v := by
  cases v with
  | null => exact null
  | bool b => exact bool b
  | number n => exact number n
  | string s => exact string s
  | array items =>
    exact array items fun v _ => tree_induction null bool number string array object v
  | object fields =>
    exact object fields fun f _ => tree_induction null bool number string array object f.2
termination_by v
decreasing_by
  · have := List.sizeOf_lt_of_mem ‹v ∈ items›
    simp only [Value.array.sizeOf_spec]
    omega
  · have := List.sizeOf_lt_of_mem ‹f ∈ fields›
    cases f
    simp only [Value.object.sizeOf_spec, Prod.mk.sizeOf_spec] at *
    omega

theorem Ordered.order_eq (h : v.Ordered) : v.order = v := by
  induction v using tree_induction with
  | null | bool b | number n | string s => rfl
  | array items ih =>
    rw [order, orderItems_eq_map]
    congr 1
    refine (List.map_congr_left fun v hv => ?_).trans (List.map_id items)
    exact ih v hv (orderedItems_iff.mp h v hv)
  | object fields ih =>
    obtain ⟨hasc, hvalues⟩ := h
    rw [order]
    congr 1
    refine (ascending_orderFields fields).eq_of_lookup_eq hasc fun key => ?_
    rw [lookup_orderFields, lastOf_eq_lookup hasc.nodup_keys]
    cases hkey : lookup key fields with
    | none => rfl
    | some v =>
      have hmem : (key, v) ∈ fields := mem_of_lookup hkey
      exact congrArg some (ih _ hmem (orderedFields_iff.mp hvalues _ hmem))

end Fanout.Value
