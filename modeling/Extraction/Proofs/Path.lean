import Extraction.Path
import Mathlib.Data.List.Infix

/-!
# Paths below a root

A path lies below a root when its components are those of the root and further
ones, which never climb back above it. Relative paths that are followed from a
root add their steps to it, while an absolute one begins anew. So it can be told
from the paths that are followed whether they lead below the root.
-/

namespace Extraction.Path

/-- The component that leads to the directory above. -/
def parent : List Char := ['.', '.']

/-- Whether a piece leads anywhere. -/
def isStep (piece : List Char) : Bool := piece != [] && piece != ['.']

/-- The components a relative path adds to what it is followed from. -/
def steps (p : Path) : List (List Char) := (pieces p).filter isStep

/-- At no point have more components led up than down. -/
def NeverClimbs (further : List (List Char)) : Prop :=
  ∀ front ∈ further.inits, 2 * front.count parent ≤ front.length

instance (further : List (List Char)) : Decidable (NeverClimbs further) :=
  inferInstanceAs (Decidable (∀ front ∈ further.inits, 2 * front.count parent ≤ front.length))

/-- The components of a path are those of a root and further ones that never climb above it. -/
def Below (root p : Path) : Prop :=
  isAbsolute p = isAbsolute root ∧
    ∃ further, further ≠ [] ∧ components p = components root ++ further ∧ NeverClimbs further

/-- What the paths that are followed from a root are like when the way ends below it: they are all
relative and do not climb, or the last absolute one among them leads below the root again. -/
inductive Confined (root : Path) (ps : List Path) : Prop
  | relative : (∀ p ∈ ps, isAbsolute p = false) → ps.flatMap steps ≠ [] →
      NeverClimbs (ps.flatMap steps) → Confined root ps
  | absolute (before : List Path) (p : Path) (after : List Path) (further : List (List Char)) :
      ps = before ++ p :: after → isAbsolute p = true → (∀ q ∈ after, isAbsolute q = false) →
      isAbsolute root = true → components p ++ after.flatMap steps = components root ++ further →
      further ≠ [] → NeverClimbs further → Confined root ps

theorem exists_splitOn_eq_cons (mark : Char) (s : List Char) :
    ∃ first others, splitOn mark s = first :: others := by
  cases s with
  | nil => exact ⟨_, _, rfl⟩
  | cons c rest =>
      unfold splitOn
      split
      next => exact ⟨_, _, rfl⟩
      next =>
        split
        next => exact ⟨_, _, rfl⟩
        next => exact ⟨_, _, rfl⟩

/-- Texts with a mark between them are split apart from each other. -/
theorem splitOn_append_cons (mark : Char) (s t : List Char) :
    splitOn mark (s ++ mark :: t) = splitOn mark s ++ splitOn mark t := by
  induction s with
  | nil => simp [splitOn]
  | cons c s ih =>
      by_cases hc : c = mark
      · simp [splitOn, hc, ih]
      · obtain ⟨first, others, hsplit⟩ := exists_splitOn_eq_cons mark s
        simp [splitOn, hc, ih, hsplit]

/-- The components of a path are its steps, behind the dot it may begin with. -/
theorem components_eq (p : Path) :
    components p = (if (pieces p).head? = some ['.'] then [['.']] else []) ++ steps p := by
  unfold components steps
  split
  next rest hpieces =>
    rw [hpieces]
    rfl
  next hpieces =>
    obtain ⟨first, others, hsplit⟩ := exists_splitOn_eq_cons '/' p.toList
    have hfirst : first ≠ ['.'] := by
      rintro rfl
      exact hpieces others hsplit
    rw [pieces, hsplit, List.head?_cons, if_neg (by simpa using hfirst)]
    rfl

section Join

variable {base p : Path}

theorem join_of_absolute (hp : isAbsolute p = true) (base : Path) : join base p = p := by
  rw [join, if_pos hp]

/-- A relative path is written behind the one it is followed from, with one slash between them. -/
theorem exists_toList_join (hp : isAbsolute p = false) (hbase : base ≠ "") :
    ∃ front, (join base p).toList = front ++ '/' :: p.toList ∧
      (base.toList = front ∨ base.toList = front ++ ['/']) := by
  have hnonempty : base.toList ≠ [] := by simpa using hbase
  obtain ⟨front, last, hfront⟩ := (List.eq_nil_or_concat' base.toList).resolve_left hnonempty
  unfold join
  rw [if_neg (by simp [hp]), hfront, List.getLast?_concat]
  simp only
  split
  next hlast =>
    refine ⟨front, ?_, .inr (by rw [hlast])⟩
    rw [String.toList_append, hfront, hlast, List.append_assoc]
    rfl
  next =>
    refine ⟨base.toList, ?_, .inl hfront.symm⟩
    rw [String.toList_append, String.toList_append, List.append_assoc]
    rfl

/-- The pieces of the two paths one after the other, without the empty one behind a slash at the
end of the first. -/
theorem exists_pieces_join (hp : isAbsolute p = false) (hbase : base ≠ "") :
    ∃ front, pieces (join base p) = front ++ pieces p ∧ front ≠ [] ∧
      (pieces base = front ∨ pieces base = front ++ [[]]) := by
  obtain ⟨front, hjoin, hfront⟩ := exists_toList_join hp hbase
  obtain ⟨first, others, hsplit⟩ := exists_splitOn_eq_cons '/' front
  refine ⟨splitOn '/' front, ?_, by simp [hsplit], ?_⟩
  · rw [pieces, hjoin, splitOn_append_cons, pieces]
  · rcases hfront with hfront | hfront
    · exact .inl (by rw [pieces, hfront])
    · exact .inr (by rw [pieces, hfront, splitOn_append_cons]; rfl)

theorem components_join (hp : isAbsolute p = false) (hbase : base ≠ "") :
    components (join base p) = components base ++ steps p := by
  obtain ⟨front, hjoin, hne, hfront⟩ := exists_pieces_join hp hbase
  obtain ⟨first, others, rfl⟩ := List.exists_cons_of_ne_nil hne
  have hhead : (pieces (join base p)).head? = (pieces base).head? := by
    rcases hfront with hfront | hfront <;> simp [hjoin, hfront]
  have hsteps : steps (join base p) = steps base ++ steps p := by
    have hnothing : [([] : List Char)].filter isStep = [] := rfl
    unfold steps
    rw [hjoin, List.filter_append]
    rcases hfront with hfront | hfront
    · rw [hfront]
    · rw [hfront, List.filter_append, hnothing, List.append_nil]
  rw [components_eq, components_eq, hhead, hsteps, List.append_assoc]

theorem join_ne_empty (hp : isAbsolute p = false) (hbase : base ≠ "") : join base p ≠ "" := by
  obtain ⟨front, hjoin, _⟩ := exists_toList_join hp hbase
  intro h
  rw [h] at hjoin
  simp at hjoin

theorem isAbsolute_join (hp : isAbsolute p = false) (hbase : base ≠ "") :
    isAbsolute (join base p) = isAbsolute base := by
  obtain ⟨front, hjoin, hfront⟩ := exists_toList_join hp hbase
  have hnonempty : base.toList ≠ [] := by simpa using hbase
  unfold isAbsolute
  rw [hjoin]
  rcases hfront with hfront | hfront
  · obtain ⟨c, tail, hcons⟩ := List.exists_cons_of_ne_nil hnonempty
    simp [← hfront, hcons]
  · cases front with
    | nil => simp [hfront]
    | cons c tail => simp [hfront]

end Join

section Follow

variable {root p : Path} {ps : List Path}

/-- Following relative paths adds the steps of each, and the way begins where it began. -/
theorem components_foldl_join (hps : ∀ p ∈ ps, isAbsolute p = false) (hroot : root ≠ "") :
    components (ps.foldl join root) = components root ++ ps.flatMap steps ∧
      isAbsolute (ps.foldl join root) = isAbsolute root := by
  induction ps generalizing root with
  | nil => simp
  | cons p rest ih =>
      obtain ⟨hp, hrest⟩ := List.forall_mem_cons.mp hps
      obtain ⟨hcomponents, habsolute⟩ := ih hrest (join_ne_empty hp hroot)
      rw [List.foldl_cons, hcomponents, habsolute, components_join hp hroot,
        isAbsolute_join hp hroot, List.flatMap_cons, List.append_assoc]
      exact ⟨rfl, rfl⟩

/-- What stands before an absolute path does not count. -/
theorem foldl_join_append_absolute (hp : isAbsolute p = true) (before after : List Path)
    (root : Path) : (before ++ p :: after).foldl join root = after.foldl join p := by
  rw [List.foldl_append, List.foldl_cons, join_of_absolute hp]

theorem ne_empty_of_isAbsolute (hp : isAbsolute p = true) : p ≠ "" := by
  rintro rfl
  cases hp

/-- Either all paths are relative, or one is the last absolute one. -/
theorem relative_or_exists_last_absolute (ps : List Path) :
    (∀ p ∈ ps, isAbsolute p = false) ∨
      ∃ before p after, ps = before ++ p :: after ∧ isAbsolute p = true ∧
        ∀ q ∈ after, isAbsolute q = false := by
  induction ps with
  | nil => exact .inl nofun
  | cons q rest ih =>
      rcases ih with hrest | ⟨before, p, after, rfl, hp, hafter⟩
      · cases hq : isAbsolute q with
        | true => exact .inr ⟨[], q, rest, rfl, hq, hrest⟩
        | false => exact .inl (List.forall_mem_cons.mpr ⟨hq, hrest⟩)
      · exact .inr ⟨q :: before, p, after, rfl, hp, hafter⟩

/-- Following paths from a root ends below it exactly when they keep to what that asks for. -/
theorem below_foldl_join_iff (hroot : root ≠ "") :
    Below root (ps.foldl join root) ↔ Confined root ps := by
  constructor
  · rintro ⟨habsolute, further, hne, hcomponents, hclimbs⟩
    rcases relative_or_exists_last_absolute ps with hps | ⟨before, p, after, rfl, hp, hafter⟩
    · rw [(components_foldl_join hps hroot).1, List.append_cancel_left_eq] at hcomponents
      subst hcomponents
      exact .relative hps hne hclimbs
    · obtain ⟨hend, habsolute'⟩ := components_foldl_join hafter (ne_empty_of_isAbsolute hp)
      rw [foldl_join_append_absolute hp] at habsolute hcomponents
      rw [hend] at hcomponents
      rw [habsolute', hp] at habsolute
      exact .absolute before p after further rfl hp hafter habsolute.symm hcomponents hne hclimbs
  · rintro (⟨hps, hne, hclimbs⟩ |
      ⟨before, p, after, further, rfl, hp, hafter, habsolute, hcomponents, hne, hclimbs⟩)
    · obtain ⟨hend, habsolute⟩ := components_foldl_join hps hroot
      exact ⟨habsolute, _, hne, hend, hclimbs⟩
    · obtain ⟨hend, habsolute'⟩ := components_foldl_join hafter (ne_empty_of_isAbsolute hp)
      rw [foldl_join_append_absolute hp]
      exact ⟨by rw [habsolute', hp, habsolute], further, hne, hend.trans hcomponents, hclimbs⟩

end Follow

end Extraction.Path
