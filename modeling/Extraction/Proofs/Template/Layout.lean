import Extraction.Success
import Extraction.Proofs.Template.Pair
import Extraction.Proofs.Text.Blank

/-!
# What a template is made of

A layout is text with actions in it: an action names its parameter after a dot,
between blank characters, and no text holds a pair of opening braces or runs
into the braces of the action after it. A template can be read exactly when it
is written in a layout, that layout is the only one, and its pieces are the
segments that are read.
-/

namespace Extraction.Template

open Text (AllBlank)

/-- A parameter in an action, with the blank characters around its dotted name. -/
structure Action where
  before : List Char
  parameter : Parameter
  after : List Char
  before_blank : AllBlank before
  after_blank : AllBlank after

/-- What stands between the braces of an action. -/
def Action.inner (a : Action) : List Char := a.before ++ '.' :: (a.parameter.name ++ a.after)

def Action.written (a : Action) : List Char := enclose a.inner

/-- A text, possibly empty, and the action after it. -/
structure Stretch where
  text : List Char
  action : Action
  not_hasPair : ¬ HasPair '\x7b' text
  getLast_ne : text.getLast? ≠ some '\x7b'

def Stretch.written (s : Stretch) : List Char := s.text ++ s.action.written

/-- Any number of actions, each with the text before it, and the text after the last one. -/
structure Layout where
  stretches : List Stretch
  rest : List Char
  not_hasPair : ¬ HasPair '\x7b' rest

def Layout.written (l : Layout) : List Char := l.stretches.flatMap Stretch.written ++ l.rest

def Stretch.segments (s : Stretch) : List Segment :=
  textSegment s.text ++ [.action s.action.parameter s.action.written]

/-- The pieces of a layout without its empty texts. -/
def Layout.segments (l : Layout) : List Segment :=
  l.stretches.flatMap Stretch.segments ++ textSegment l.rest

/-- The characters a segment is written in. -/
def Segment.written : Segment → List Char
  | .text chars => chars
  | .action _ written => written

theorem flatMap_written_textSegment (chars : List Char) :
    (textSegment chars).flatMap Segment.written = chars := by
  cases chars <;> simp [textSegment, Segment.written]

/-- The segments of a layout are written in the characters of the layout. -/
theorem Layout.flatMap_written_segments (l : Layout) :
    l.segments.flatMap Segment.written = l.written := by
  unfold Layout.segments Layout.written
  rw [List.flatMap_append, flatMap_written_textSegment, List.flatMap_assoc]
  congr 2
  funext s
  simp [Stretch.segments, Stretch.written, flatMap_written_textSegment, Segment.written]

section Action

theorem closing_not_mem_of_allBlank {w : List Char} (hw : AllBlank w) : '\x7d' ∉ w :=
  fun h => absurd (hw _ h) (by decide)

theorem Parameter.closing_not_mem_name (p : Parameter) : '\x7d' ∉ p.name := by
  cases p <;> decide

theorem Parameter.trimRight_dot_name (p : Parameter) :
    Text.trimRight ('.' :: p.name) = '.' :: p.name := by
  cases p <;> decide

theorem Parameter.ofName?_name (p : Parameter) : Parameter.ofName? p.name = some p := by
  cases p <;> decide

theorem Parameter.name_eq_of_ofName? {name : List Char} {p : Parameter}
    (h : Parameter.ofName? name = some p) : p.name = name := by
  simpa using List.find?_some h

theorem Action.closing_not_mem_inner (a : Action) : '\x7d' ∉ a.inner := by
  simp [Action.inner, closing_not_mem_of_allBlank a.before_blank,
    closing_not_mem_of_allBlank a.after_blank, a.parameter.closing_not_mem_name]

theorem Action.getLast?_written (a : Action) : a.written.getLast? = some '\x7d' := by
  simp [Action.written, enclose, List.getLast?_cons]

theorem Action.trim_inner (a : Action) : Text.trim a.inner = '.' :: a.parameter.name :=
  Text.trim_append_cons_append a.before_blank a.after_blank (by decide)
    a.parameter.trimRight_dot_name

theorem Action.readAction_inner (a : Action) : readAction a.inner = .ok a.parameter := by
  simp only [readAction, a.trim_inner, Parameter.ofName?_name]

/-- What stands between the braces tells the action. -/
theorem Action.inner_injective : Function.Injective Action.inner := by
  intro a b h
  have hparameter : a.parameter = b.parameter := by
    have htrim := congrArg Text.trim h
    rw [a.trim_inner, b.trim_inner, List.cons_inj_right] at htrim
    have hname := congrArg Parameter.ofName? htrim
    rw [Parameter.ofName?_name, Parameter.ofName?_name] at hname
    exact Option.some_inj.mp hname
  have hblank (a : Action) : a.inner.takeWhile Text.isBlankChar = a.before := by
    rw [Action.inner, List.takeWhile_append_of_pos a.before_blank]
    simp [show Text.isBlankChar '.' = false by decide]
  have hbefore : a.before = b.before := by rw [← hblank a, ← hblank b, h]
  obtain ⟨before, parameter, after, _, _⟩ := a
  obtain ⟨_, _, after', _, _⟩ := b
  cases hbefore
  cases hparameter
  simp only [Action.inner, List.append_cancel_left_eq, List.cons.injEq, true_and] at h
  cases h
  rfl

/-- What reads as a parameter is an action of that parameter. -/
theorem exists_action_of_readAction {inner : List Char} {p : Parameter}
    (h : readAction inner = .ok p) : ∃ a : Action, a.inner = inner ∧ a.parameter = p := by
  obtain ⟨w, w', hw, hw', hinner⟩ := Text.exists_append_trim_append inner
  unfold readAction at h
  split at h
  next name htrim =>
    split at h
    next hname =>
      cases h
      refine ⟨⟨w, p, w', hw, hw'⟩, ?_, rfl⟩
      rw [Action.inner, Parameter.name_eq_of_ofName? hname, hinner, htrim]
      simp
    next => cases h
  next => cases h

end Action

section Reading

variable {s before inner action after : List Char}

theorem parse_of_no_pair (h : splitAtPair? '\x7b' s = none) : parse s = .ok (textSegment s) := by
  rw [parse]
  split
  next => rfl
  next hsome => rw [h] at hsome; cases hsome

/-- One round of reading: the text before an action, the action, and whatever follows. -/
theorem parse_of_action (hopen : splitAtPair? '\x7b' s = some (before, inner))
    (hclose : splitAtPair? '\x7d' inner = some (action, after)) :
    parse s = do
      let parameter ← readAction action
      let segments ← parse after
      return textSegment before ++ .action parameter (enclose action) :: segments := by
  rw [parse]
  split
  next hnone => rw [hopen] at hnone; cases hnone
  next hsome =>
    rw [hopen] at hsome
    cases hsome
    split
    next hnone => rw [hclose] at hnone; cases hnone
    next hsome' => rw [hclose] at hsome'; cases hsome'; rfl

end Reading

theorem Action.splitAtPair?_inner (a : Action) (more : List Char) :
    splitAtPair? '\x7d' (a.inner ++ '\x7d' :: '\x7d' :: more) = some (a.inner, more) := by
  apply splitAtPair?_append
  · intro h
    exact a.closing_not_mem_inner (h.subset List.mem_cons_self)
  · intro h
    exact a.closing_not_mem_inner (List.mem_of_getLast? h)

/-- The first pair of opening braces in a layout is that of its first action. -/
theorem Stretch.splitAtPair?_written (s : Stretch) (more : List Char) :
    splitAtPair? '\x7b' (s.written ++ more) =
      some (s.text, s.action.inner ++ '\x7d' :: '\x7d' :: more) := by
  have hwritten : s.written ++ more =
      s.text ++ '\x7b' :: '\x7b' :: (s.action.inner ++ '\x7d' :: '\x7d' :: more) := by
    simp [Stretch.written, Action.written, enclose]
  rw [hwritten]
  exact splitAtPair?_append s.not_hasPair s.getLast_ne

/-- Behind an action that is read, reading goes on. -/
theorem Stretch.parse_written_append (first : Stretch) (more : List Char) :
    parse (first.written ++ more) = (parse more).map (first.segments ++ ·) := by
  rw [parse_of_action (first.splitAtPair?_written more) (first.action.splitAtPair?_inner more),
    first.action.readAction_inner]
  cases parse more with
  | error => rfl
  | ok segments =>
      simp [Stretch.segments, Action.written, bind, Except.bind, Except.map, pure, Except.pure]

/-- A layout is read into its segments. -/
theorem parse_written (l : Layout) : parse l.written = .ok l.segments := by
  obtain ⟨stretches, rest, hrest⟩ := l
  induction stretches with
  | nil => exact parse_of_no_pair (splitAtPair?_eq_none_iff.mpr hrest)
  | cons s stretches ih =>
      have hwritten : Layout.written ⟨s :: stretches, rest, hrest⟩ =
          s.written ++ Layout.written ⟨stretches, rest, hrest⟩ := by
        simp [Layout.written]
      rw [hwritten, s.parse_written_append, ih]
      simp [Layout.segments, Except.map]

/-- What can be read is written in some layout. -/
theorem exists_layout_of_parse {s : List Char} {segments : List Segment}
    (h : parse s = .ok segments) : ∃ l : Layout, l.written = s := by
  fun_induction parse s generalizing segments with
  | case1 s hnone => exact ⟨⟨[], s, splitAtPair?_eq_none_iff.mp hnone⟩, rfl⟩
  | case2 => cases h
  | case3 s before inner hopen action after hclose ih =>
      obtain ⟨p, haction, h⟩ := ok_of_bind h
      obtain ⟨others, hothers, _⟩ := ok_of_bind h
      obtain ⟨l, hl⟩ := ih hothers
      obtain ⟨a, hinner, _⟩ := exists_action_of_readAction haction
      -- The split is at the first pair, so the text in front is that of a stretch.
      obtain ⟨hpair, hlast⟩ := not_hasPair_of_splitAtPair? hopen
      refine ⟨⟨⟨before, a, hpair, hlast⟩ :: l.stretches, l.rest, l.not_hasPair⟩, ?_⟩
      rw [splitAtPair?_eq_some hopen, splitAtPair?_eq_some hclose, ← hl, ← hinner]
      simp [Layout.written, Stretch.written, Action.written, enclose]

theorem Stretch.written_append_ne (s : Stretch) (more : List Char) {rest : List Char}
    (hrest : ¬ HasPair '\x7b' rest) : s.written ++ more ≠ rest := by
  rintro rfl
  have hnone := splitAtPair?_eq_none_iff.mpr hrest
  rw [s.splitAtPair?_written] at hnone
  cases hnone

/-- The first stretch of a text is told by the text. -/
theorem Stretch.written_append_inj {s s' : Stretch} {more more' : List Char}
    (h : s.written ++ more = s'.written ++ more') : s = s' ∧ more = more' := by
  have hopen := s.splitAtPair?_written more
  rw [h, s'.splitAtPair?_written, Option.some_inj, Prod.mk.injEq] at hopen
  obtain ⟨htext, hafter⟩ := hopen
  have hclose := s.action.splitAtPair?_inner more
  rw [← hafter, s'.action.splitAtPair?_inner, Option.some_inj, Prod.mk.injEq] at hclose
  obtain ⟨hinner, hmore⟩ := hclose
  have haction := Action.inner_injective hinner
  cases s
  cases s'
  simp only at htext haction
  subst htext haction
  exact ⟨rfl, hmore.symm⟩

/-- A text is written in one layout at most. -/
theorem written_injective : Function.Injective Layout.written := by
  rintro ⟨stretches, rest, hrest⟩ ⟨stretches', rest', hrest'⟩ h
  induction stretches generalizing stretches' with
  | nil =>
      cases stretches' with
      | nil =>
          have heq : rest = rest' := by simpa [Layout.written] using h
          subst heq
          rfl
      | cons s' more' =>
          -- Only the second layout has a pair in it.
          simp only [Layout.written, List.flatMap_nil, List.nil_append, List.flatMap_cons,
            List.append_assoc] at h
          exact absurd h.symm (s'.written_append_ne _ hrest)
  | cons s more ih =>
      cases stretches' with
      | nil =>
          simp only [Layout.written, List.flatMap_nil, List.nil_append, List.flatMap_cons,
            List.append_assoc] at h
          exact absurd h (s.written_append_ne _ hrest')
      | cons s' more' =>
          simp only [Layout.written, List.flatMap_cons, List.append_assoc] at h
          obtain ⟨rfl, hmore⟩ := Stretch.written_append_inj h
          cases ih more' hmore
          rfl

theorem check_eq_ok_iff {t : String} :
    check t = .ok () ↔ ∃ segments, parse t.toList = .ok segments := by
  unfold check
  cases parse t.toList <;> simp [Except.map]

/-- A template can be read exactly when it is written in a layout. It is written in one layout
only, is read into the pieces of that layout, and is made of nothing else. -/
theorem check_eq_ok_iff_layout :
    (∀ t : String, check t = .ok () ↔ ∃ l : Layout, l.written = t.toList) ∧
    Function.Injective Layout.written ∧
    ∀ l : Layout, parse l.written = .ok l.segments ∧
      l.segments.flatMap Segment.written = l.written := by
  refine ⟨?_, written_injective, fun l => ⟨parse_written l, l.flatMap_written_segments⟩⟩
  intro t
  rw [check_eq_ok_iff]
  constructor
  · rintro ⟨segments, h⟩
    exact exists_layout_of_parse h
  · rintro ⟨l, hl⟩
    exact ⟨l.segments, hl ▸ parse_written l⟩

end Extraction.Template
