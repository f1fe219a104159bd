import Extraction.Proofs.Text.Octets
import Extraction.Table
import Mathlib.Order.Defs.LinearOrder

/-!
# Finding values in tables

Insertion changes what is found under one text only, whatever the order of the
table, and keeps a table in order. A table in order is known by what is found in
it, and it is what its own bindings, put in one after the other, give back.
-/

namespace Extraction

theorem Text.before_irrefl (a : String) : Text.before a a = false := by
  simp [Text.before, List.lt_irrefl]

theorem Text.before_asymm {a b : String} (h : Text.before a b = true) :
    Text.before b a = false := by
  simp only [Text.before, decide_eq_true_eq, decide_eq_false_iff_not] at *
  exact List.lt_asymm h

theorem Text.ne_of_before {a b : String} (h : Text.before a b = true) : a ≠ b := by
  rintro rfl
  rw [Text.before_irrefl] at h
  cases h

theorem Text.before_trans {a b c : String} (hab : Text.before a b = true)
    (hbc : Text.before b c = true) : Text.before a c = true := by
  simp only [Text.before, decide_eq_true_eq] at *
  exact List.lt_trans hab hbc

/-- Of two different texts one comes before the other. -/
theorem Text.before_of_not_before {a b : String} (hne : a ≠ b) (h : Text.before a b = false) :
    Text.before b a = true := by
  simp only [Text.before, decide_eq_true_eq, decide_eq_false_iff_not] at *
  have hoctets : Octets.ofString b ≠ Octets.ofString a := fun heq =>
    hne (Octets.ofString_injective heq).symm
  exact Std.lt_of_le_of_ne h hoctets

namespace Table

variable {α : Type}

theorem lookup_cons (other : String) (value : α) (rest : Table α) (name : String) :
    List.lookup name ((other, value) :: rest) =
      if name = other then some value else rest.lookup name := by
  by_cases h : name = other
  · simp [h]
  · simp [List.lookup_cons, beq_false_of_ne h, h]

/-- Insertion changes what is found under exactly one text. -/
theorem lookup_insert (key : String) (value : α) (table : Table α) (name : String) :
    (insert key value table).lookup name =
      if name = key then some value else table.lookup name := by
  induction table with
  | nil => exact lookup_cons key value [] name
  | cons entry rest ih =>
      obtain ⟨other, old⟩ := entry
      unfold insert
      split
      next heq =>
        subst heq
        by_cases h : name = key <;> simp [lookup_cons, h]
      next hne =>
        split
        next => rw [lookup_cons]
        next =>
          rw [lookup_cons, lookup_cons, ih]
          by_cases h : name = key
          · subst h
            simp [hne]
          · simp [h]

theorem lookup_foldl_insert (table bindings : Table α) (name : String) :
    (bindings.foldl (fun table (key, value) => insert key value table) table).lookup name =
      ((bindings.filter (·.1 = name)).getLast?.map Prod.snd).or (table.lookup name) := by
  induction bindings generalizing table with
  | nil => rfl
  | cons binding rest ih =>
      obtain ⟨key, value⟩ := binding
      rw [List.foldl_cons, ih, lookup_insert, List.filter_cons]
      by_cases h : key = name
      · cases hlast : (rest.filter (·.1 = name)).getLast? <;> simp [h, hlast, List.getLast?_cons]
      · simp [h, Ne.symm h]

/-- Of several bindings of a text the last one counts. -/
theorem lookup_ofBindings (bindings : List (String × α)) (name : String) :
    (ofBindings bindings).lookup name = (bindings.filter (·.1 = name)).getLast?.map Prod.snd := by
  rw [ofBindings, lookup_foldl_insert]
  exact Option.or_none

theorem mem_insert {key : String} {value : α} {table : Table α} {entry : String × α}
    (h : entry ∈ insert key value table) : entry = (key, value) ∨ entry ∈ table := by
  induction table with
  | nil => exact .inl (List.mem_singleton.mp h)
  | cons first rest ih =>
      obtain ⟨other, old⟩ := first
      unfold insert at h
      split at h
      next =>
        rcases List.mem_cons.mp h with h | h
        · exact .inl h
        · exact .inr (List.mem_cons_of_mem _ h)
      split at h
      next => exact List.mem_cons.mp h
      next =>
        rcases List.mem_cons.mp h with h | h
        · exact .inr (h ▸ List.mem_cons_self)
        · exact (ih h).imp_right (List.mem_cons_of_mem _)

theorem sorted_insert (key : String) (value : α) {table : Table α} (h : Sorted table) :
    Sorted (insert key value table) := by
  induction table with
  | nil => exact List.pairwise_singleton _ _
  | cons entry rest ih =>
      obtain ⟨other, old⟩ := entry
      obtain ⟨hother, hrest⟩ := List.pairwise_cons.mp h
      unfold insert
      split
      next heq => exact List.pairwise_cons.mpr ⟨heq ▸ hother, hrest⟩
      next hne =>
        split
        next hbefore =>
          refine List.pairwise_cons.mpr ⟨?_, h⟩
          simp only [List.forall_mem_cons]
          exact ⟨hbefore, fun entry hentry => Text.before_trans hbefore (hother entry hentry)⟩
        next hbefore =>
          refine List.pairwise_cons.mpr ⟨fun entry hentry => ?_, ih hrest⟩
          rcases mem_insert hentry with rfl | hentry
          · exact Text.before_of_not_before hne (eq_false_of_ne_true hbefore)
          · exact hother entry hentry

/-- In a table in order every value is found under its text. -/
theorem lookup_eq_some_iff_mem {table : Table α} (h : Sorted table) {name : String} {value : α} :
    table.lookup name = some value ↔ (name, value) ∈ table := by
  rw [List.lookup_eq_some_iff]
  constructor
  · rintro ⟨before, after, rfl, _⟩
    exact List.mem_append_right _ List.mem_cons_self
  · intro hmem
    obtain ⟨before, after, rfl⟩ := List.append_of_mem hmem
    refine ⟨before, after, rfl, fun entry hentry => ?_⟩
    have hbefore := (List.pairwise_append.mp h).2.2 entry hentry (name, value) List.mem_cons_self
    simpa using (Text.ne_of_before hbefore).symm

/-- Tables in order are the same when the same is found in them. -/
theorem eq_of_lookup_eq {table other : Table α} (h : Sorted table) (hother : Sorted other)
    (hlookup : ∀ name, table.lookup name = other.lookup name) : table = other := by
  have hnodup {t : Table α} (ht : Sorted t) : t.Nodup :=
    ht.imp fun hbefore heq => Text.ne_of_before hbefore (congrArg Prod.fst heq)
  have hperm : table.Perm other := by
    rw [List.perm_ext_iff_of_nodup (hnodup h) (hnodup hother)]
    rintro ⟨name, value⟩
    rw [← lookup_eq_some_iff_mem h, ← lookup_eq_some_iff_mem hother, hlookup]
  refine hperm.eq_of_pairwise (fun a b _ _ hab hba => ?_) h hother
  rw [Text.before_asymm hab] at hba
  cases hba

/-- A text that comes after all others goes to the end. -/
theorem insert_of_forall_before {key : String} {value : α} {table : Table α}
    (h : ∀ entry ∈ table, Text.before entry.1 key = true) :
    insert key value table = table ++ [(key, value)] := by
  induction table with
  | nil => rfl
  | cons entry rest ih =>
      obtain ⟨other, old⟩ := entry
      have hother := h (other, old) List.mem_cons_self
      have hrest := ih fun entry hentry => h entry (List.mem_cons_of_mem _ hentry)
      simp [insert, (Text.ne_of_before hother).symm, Text.before_asymm hother, hrest]

theorem foldl_insert_of_sorted {table bindings : Table α} (h : Sorted (table ++ bindings)) :
    bindings.foldl (fun table (key, value) => insert key value table) table =
      table ++ bindings := by
  induction bindings generalizing table with
  | nil => simp
  | cons binding rest ih =>
      obtain ⟨key, value⟩ := binding
      have hbefore : ∀ entry ∈ table, Text.before entry.1 key = true := by
        intro entry hentry
        exact (List.pairwise_append.mp h).2.2 entry hentry (key, value) List.mem_cons_self
      have hassoc : table ++ (key, value) :: rest = (table ++ [(key, value)]) ++ rest := by simp
      simp only [List.foldl_cons, insert_of_forall_before hbefore]
      rw [hassoc]
      exact ih (hassoc ▸ h)

/-- A table in order is the table of its own bindings. -/
theorem ofBindings_of_sorted {bindings : Table α} (h : Sorted bindings) :
    ofBindings bindings = bindings := by
  have hnil : Sorted ([] ++ bindings) := h
  exact foldl_insert_of_sorted hnil

end Table

end Extraction
