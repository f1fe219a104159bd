import Extraction.Proofs.Template.Layout

/-!
# The first bad action

A template that cannot be read is one that can up to an action, and an action
that is not closed, has no dot, or names no parameter. There is only one such
place in a template. What is said of the template tells this action, and what
stands behind it counts only if the action is not closed.
-/

namespace Extraction.Template

/-- What stands in front of the first pair of closing braces. -/
structure UpToClosing (action : List Char) : Prop where
  not_hasPair : ¬ HasPair '\x7d' action
  getLast_ne : action.getLast? ≠ some '\x7d'

/-- A text begins with an action that cannot be read, and what is said of it. -/
inductive Diagnosis : List Char → String → Prop
  | unclosed {inner : List Char} : ¬ HasPair '\x7d' inner →
      Diagnosis ('\x7b' :: '\x7b' :: inner)
        ("unclosed action at '" ++ String.ofList ('\x7b' :: '\x7b' :: inner) ++ "'")
  | unsupported {action trimmed : List Char} (after : List Char) : UpToClosing action →
      Text.TrimsTo action trimmed → trimmed.head? ≠ some '.' →
      Diagnosis (enclose action ++ after) ("unsupported action '" ++ String.ofList trimmed ++ "'")
  | unknown {action name : List Char} (after : List Char) : UpToClosing action →
      Text.TrimsTo action ('.' :: name) → (∀ parameter : Parameter, parameter.name ≠ name) →
      Diagnosis (enclose action ++ after) ("unknown parameter '" ++ String.ofList name ++ "'")

/-- A template can be read up to an action that cannot. -/
structure FirstBad (t good bad : List Char) (message : String) : Prop where
  split : t = good ++ bad
  accepted : check (String.ofList good) = .ok ()
  not_open : good.getLast? ≠ some '\x7b'
  diagnosis : Diagnosis bad message

section Actions

variable {action inner after : List Char} {fault : Fault} {message : String}

theorem UpToClosing.splitAtPair? (h : UpToClosing action) (after : List Char) :
    splitAtPair? '\x7d' (action ++ '\x7d' :: '\x7d' :: after) = some (action, after) :=
  splitAtPair?_append h.not_hasPair h.getLast_ne

theorem upToClosing_of_splitAtPair? (h : splitAtPair? '\x7d' inner = some (action, after)) :
    UpToClosing action :=
  ⟨(not_hasPair_of_splitAtPair? h).1, (not_hasPair_of_splitAtPair? h).2⟩

theorem enclose_append (action after : List Char) :
    enclose action ++ after = '\x7b' :: '\x7b' :: (action ++ '\x7d' :: '\x7d' :: after) := by
  simp [enclose]

theorem Parameter.ofName?_eq_none_iff {name : List Char} :
    Parameter.ofName? name = none ↔ ∀ parameter : Parameter, parameter.name ≠ name := by
  constructor
  · rintro h parameter rfl
    rw [Parameter.ofName?_name] at h
    cases h
  · intro h
    cases hname : Parameter.ofName? name with
    | none => rfl
    | some parameter => exact absurd (Parameter.name_eq_of_ofName? hname) (h parameter)

/-- What is wrong with a closed action is told by its trimmed text. -/
theorem diagnosis_of_readAction (hclosed : UpToClosing action)
    (h : readAction action = .error fault) (after : List Char) :
    Diagnosis (enclose action ++ after) fault.message := by
  have htrim := Text.trimsTo_trim action
  unfold readAction at h
  split at h
  next name hdot =>
    split at h
    next => cases h
    next hname =>
      cases h
      rw [hdot] at htrim
      exact .unknown after hclosed htrim (Parameter.ofName?_eq_none_iff.mp hname)
  next hdot =>
    cases h
    refine .unsupported after hclosed htrim fun hhead => ?_
    obtain ⟨name, hname⟩ := List.head?_eq_some_iff.mp hhead
    exact hdot name hname

/-- An action has a diagnosis because it is not closed or because what stands in it is not read. -/
theorem Diagnosis.cases {bad : List Char} (h : Diagnosis bad message) :
    ∃ inner, bad = '\x7b' :: '\x7b' :: inner ∧
      ((splitAtPair? '\x7d' inner = none ∧ (Fault.unclosed bad).message = message) ∨
        ∃ action after fault, splitAtPair? '\x7d' inner = some (action, after) ∧
          readAction action = .error fault ∧ fault.message = message) := by
  cases h with
  | @unclosed inner hpair => exact ⟨inner, rfl, .inl ⟨splitAtPair?_eq_none_iff.mpr hpair, rfl⟩⟩
  | @unsupported action trimmed after hclosed htrim hdot =>
      refine ⟨_, enclose_append action after,
        .inr ⟨action, after, .unsupported trimmed, hclosed.splitAtPair? after, ?_, rfl⟩⟩
      unfold readAction
      rw [Text.trimsTo_iff.mp htrim]
      cases trimmed with
      | nil => rfl
      | cons c name =>
          split
          next heq => cases heq; exact absurd rfl hdot
          next => rfl
  | @unknown action name after hclosed htrim hname =>
      refine ⟨_, enclose_append action after,
        .inr ⟨action, after, .unknown name, hclosed.splitAtPair? after, ?_, rfl⟩⟩
      simp only [readAction, Text.trimsTo_iff.mp htrim, Parameter.ofName?_eq_none_iff.mpr hname]

/-- An action with a diagnosis is no action of a layout. -/
theorem Diagnosis.ne_action (h : Diagnosis ('\x7b' :: '\x7b' :: inner) message) (a : Action)
    (more : List Char) : inner ≠ a.inner ++ '\x7d' :: '\x7d' :: more := by
  rintro rfl
  obtain ⟨_, heq, hcases⟩ := h.cases
  cases heq
  rw [a.splitAtPair?_inner] at hcases
  rcases hcases with ⟨hnone, _⟩ | ⟨_, _, _, hsome, hread, _⟩
  · cases hnone
  · cases hsome
    rw [a.readAction_inner] at hread
    cases hread

/-- What stands behind a closed action has no part in its diagnosis. -/
theorem Diagnosis.replace_after (h : Diagnosis (enclose action ++ after) message)
    (hclosed : UpToClosing action) (after' : List Char) :
    Diagnosis (enclose action ++ after') message := by
  rw [enclose_append] at h
  obtain ⟨_, heq, hcases⟩ := h.cases
  cases heq
  rw [hclosed.splitAtPair?] at hcases
  rcases hcases with ⟨hnone, _⟩ | ⟨_, _, _, hsome, hread, rfl⟩
  · cases hnone
  · cases hsome
    exact diagnosis_of_readAction hclosed hread after'

end Actions

section Reading

variable {s good bad text : List Char} {fault : Fault} {message : String}

/-- Reading is refused at an action with a diagnosis that stands behind text. -/
theorem Diagnosis.exists_parse (h : Diagnosis bad message) (hpair : ¬ HasPair '\x7b' text)
    (hlast : text.getLast? ≠ some '\x7b') :
    ∃ fault, parse (text ++ bad) = .error fault ∧ fault.message = message := by
  obtain ⟨inner, rfl, hcases⟩ := h.cases
  have hopen : splitAtPair? '\x7b' (text ++ '\x7b' :: '\x7b' :: inner) = some (text, inner) :=
    splitAtPair?_append hpair hlast
  rcases hcases with ⟨hnone, hmessage⟩ | ⟨action, after, fault, hsome, hread, hmessage⟩
  · refine ⟨_, ?_, hmessage⟩
    rw [parse]
    split
    next heq => rw [hopen] at heq; cases heq
    next heq =>
      rw [hopen] at heq
      cases heq
      split
      next => rfl
      next heq' => rw [hnone] at heq'; cases heq'
  · refine ⟨fault, ?_, hmessage⟩
    rw [parse_of_action hopen hsome, hread]
    rfl

/-- What is read up to an action with a diagnosis is refused for it. -/
theorem Layout.exists_parse_append (l : Layout) (h : Diagnosis bad message)
    (hlast : l.rest.getLast? ≠ some '\x7b') :
    ∃ fault, parse (l.written ++ bad) = .error fault ∧ fault.message = message := by
  obtain ⟨stretches, rest, hrest⟩ := l
  induction stretches with
  | nil => exact h.exists_parse hrest hlast
  | cons first more ih =>
      obtain ⟨fault, hparse, hmessage⟩ := ih hlast
      refine ⟨fault, ?_, hmessage⟩
      have hwritten : Layout.written ⟨first :: more, rest, hrest⟩ ++ bad =
          first.written ++ (Layout.written ⟨more, rest, hrest⟩ ++ bad) := by
        simp [Layout.written]
      rw [hwritten, first.parse_written_append, hparse]
      rfl

/-- Whenever reading is refused, it is at an action with a diagnosis. -/
theorem exists_layout_of_parse_error (h : parse s = .error fault) :
    ∃ (l : Layout) (bad : List Char), s = l.written ++ bad ∧ l.rest.getLast? ≠ some '\x7b' ∧
      Diagnosis bad fault.message := by
  fun_induction parse s with
  | case1 => cases h
  | case2 s before inner hopen hclose =>
      cases h
      obtain ⟨hpair, hlast⟩ := not_hasPair_of_splitAtPair? hopen
      exact ⟨⟨[], before, hpair⟩, _, splitAtPair?_eq_some hopen, hlast,
        .unclosed (splitAtPair?_eq_none_iff.mp hclose)⟩
  | case3 s before inner hopen action after hclose ih =>
      obtain ⟨hpair, hlast⟩ := not_hasPair_of_splitAtPair? hopen
      have htext : s = before ++ (enclose action ++ after) := by
        rw [splitAtPair?_eq_some hopen, splitAtPair?_eq_some hclose, enclose_append]
      cases hread : readAction action with
      | error fault' =>
          rw [hread] at h
          cases h
          exact ⟨⟨[], before, hpair⟩, _, htext, hlast,
            diagnosis_of_readAction (upToClosing_of_splitAtPair? hclose) hread after⟩
      | ok parameter =>
          rw [hread] at h
          cases hafter : parse after with
          | ok segments => rw [hafter] at h; cases h
          | error fault' =>
              rw [hafter] at h
              cases h
              obtain ⟨l, bad, rfl, hend, hbad⟩ := ih hafter
              obtain ⟨a, rfl, _⟩ := exists_action_of_readAction hread
              refine ⟨⟨⟨before, a, hpair, hlast⟩ :: l.stretches, l.rest, l.not_hasPair⟩, bad, ?_,
                hend, hbad⟩
              rw [htext]
              simp [Layout.written, Stretch.written, Action.written]

end Reading

section Unique

variable {t good good' bad bad' text : List Char} {message message' : String}

/-- Where a layout has its next action, no other text has an action with a diagnosis. -/
theorem Diagnosis.append_ne_stretch (h : Diagnosis bad message) (hpair : ¬ HasPair '\x7b' text)
    (hlast : text.getLast? ≠ some '\x7b') (first : Stretch) (more : List Char) :
    text ++ bad ≠ first.written ++ more := by
  intro heq
  obtain ⟨inner, rfl, _⟩ := h.cases
  have hopen : splitAtPair? '\x7b' (text ++ '\x7b' :: '\x7b' :: inner) = some (text, inner) :=
    splitAtPair?_append hpair hlast
  rw [heq, first.splitAtPair?_written, Option.some_inj, Prod.mk.injEq] at hopen
  exact h.ne_action first.action more hopen.2.symm

theorem Diagnosis.append_inj (h : Diagnosis bad message) (h' : Diagnosis bad' message')
    {l l' : Layout} (hlast : l.rest.getLast? ≠ some '\x7b')
    (hlast' : l'.rest.getLast? ≠ some '\x7b') (heq : l.written ++ bad = l'.written ++ bad') :
    l.written = l'.written ∧ bad = bad' := by
  obtain ⟨stretches, rest, hrest⟩ := l
  obtain ⟨stretches', rest', hrest'⟩ := l'
  induction stretches generalizing stretches' with
  | nil =>
      cases stretches' with
      | nil =>
          obtain ⟨inner, rfl, _⟩ := h.cases
          obtain ⟨inner', rfl, _⟩ := h'.cases
          have hopen :
              splitAtPair? '\x7b' (rest ++ '\x7b' :: '\x7b' :: inner) = some (rest, inner) :=
            splitAtPair?_append hrest hlast
          simp only [Layout.written, List.flatMap_nil, List.nil_append] at heq ⊢
          rw [heq, splitAtPair?_append hrest' hlast', Option.some_inj, Prod.mk.injEq] at hopen
          exact ⟨hopen.1.symm, by rw [hopen.2]⟩
      | cons first more =>
          simp only [Layout.written, List.flatMap_nil, List.nil_append, List.flatMap_cons,
            List.append_assoc] at heq
          exact absurd heq (h.append_ne_stretch hrest hlast first _)
  | cons first more ih =>
      cases stretches' with
      | nil =>
          simp only [Layout.written, List.flatMap_nil, List.nil_append, List.flatMap_cons,
            List.append_assoc] at heq
          exact absurd heq.symm (h'.append_ne_stretch hrest' hlast' first _)
      | cons first' more' =>
          simp only [Layout.written, List.flatMap_cons, List.append_assoc] at heq
          obtain ⟨rfl, hmore⟩ := Stretch.written_append_inj heq
          obtain ⟨hgood, hbad⟩ := ih hlast more' hlast' (by simpa [Layout.written] using hmore)
          refine ⟨?_, hbad⟩
          simp only [Layout.written, List.flatMap_cons, List.append_assoc] at hgood ⊢
          rw [hgood]

/-- A layout ends with an opening brace only if the text behind its last action does. -/
theorem Layout.getLast?_written_iff (l : Layout) :
    l.written.getLast? = some '\x7b' ↔ l.rest.getLast? = some '\x7b' := by
  rw [Layout.written, List.getLast?_append]
  cases hrest : l.rest.getLast? with
  | some c => rfl
  | none =>
      rcases List.eq_nil_or_concat l.stretches with hnil | ⟨front, last, hlast⟩
      · rw [hnil]
        rfl
      · rw [hlast]
        simp [Stretch.written, List.getLast?_append, last.action.getLast?_written]

/-- What can be read in front of the first bad action is written in a layout. -/
theorem FirstBad.exists_layout (h : FirstBad t good bad message) :
    ∃ l : Layout, l.written = good ∧ l.rest.getLast? ≠ some '\x7b' := by
  obtain ⟨segments, hparse⟩ := check_eq_ok_iff.mp h.accepted
  rw [String.toList_ofList] at hparse
  obtain ⟨l, rfl⟩ := exists_layout_of_parse hparse
  exact ⟨l, rfl, mt l.getLast?_written_iff.mpr h.not_open⟩

theorem check_ofList_written (l : Layout) : check (String.ofList l.written) = .ok () := by
  rw [check_eq_ok_iff, String.toList_ofList]
  exact ⟨l.segments, parse_written l⟩

theorem FirstBad.unique (h : FirstBad t good bad message) (h' : FirstBad t good' bad' message') :
    good = good' ∧ bad = bad' := by
  obtain ⟨l, rfl, hlast⟩ := h.exists_layout
  obtain ⟨l', rfl, hlast'⟩ := h'.exists_layout
  exact h.diagnosis.append_inj h'.diagnosis hlast hlast' (h.split.symm.trans h'.split)

theorem check_eq_error_iff {t : String} {fault : Fault} :
    check t = .error fault ↔ parse t.toList = .error fault := by
  unfold check
  cases parse t.toList <;> simp [Except.map]

theorem FirstBad.exists_parse (h : FirstBad t good bad message) :
    ∃ fault, parse t = .error fault ∧ fault.message = message := by
  obtain ⟨l, rfl, hlast⟩ := h.exists_layout
  rw [h.split]
  exact l.exists_parse_append h.diagnosis hlast

/-- A template is refused exactly when it can be read up to an action with a diagnosis, which is
what is said of it. There is only one split into what can be read and such an action; and if the
action is closed, nothing that stands behind it changes what is said. -/
theorem check_refuses_at_first_bad_action :
    (∀ t message : String, (∃ fault, check t = .error fault ∧ fault.message = message) ↔
      ∃ good bad, FirstBad t.toList good bad message) ∧
    (∀ {t good bad good' bad' : List Char} {message message' : String},
      FirstBad t good bad message → FirstBad t good' bad' message' →
        good = good' ∧ bad = bad' ∧ message = message') ∧
    ∀ {t good action after : List Char} {message : String},
      FirstBad t good (enclose action ++ after) message → UpToClosing action → ∀ after',
        FirstBad (good ++ (enclose action ++ after')) good (enclose action ++ after') message := by
  refine ⟨?_, ?_, ?_⟩
  · intro t message
    constructor
    · rintro ⟨fault, hcheck, rfl⟩
      obtain ⟨l, bad, hsplit, hlast, hbad⟩ :=
        exists_layout_of_parse_error (check_eq_error_iff.mp hcheck)
      exact ⟨l.written, bad, hsplit, check_ofList_written l, mt l.getLast?_written_iff.mp hlast,
        hbad⟩
    · rintro ⟨good, bad, h⟩
      obtain ⟨fault, hparse, hmessage⟩ := h.exists_parse
      exact ⟨fault, check_eq_error_iff.mpr hparse, hmessage⟩
  · intro t good bad good' bad' message message' h h'
    obtain ⟨hgood, hbad⟩ := h.unique h'
    obtain ⟨fault, hparse, hmessage⟩ := h.exists_parse
    obtain ⟨fault', hparse', hmessage'⟩ := h'.exists_parse
    rw [hparse, Except.error.injEq] at hparse'
    exact ⟨hgood, hbad, by rw [← hmessage, hparse', hmessage']⟩
  · intro t good action after message h hclosed after'
    exact ⟨rfl, h.accepted, h.not_open, h.diagnosis.replace_after hclosed after'⟩

/-- An action that is read and a single opening brace behind it. -/
def executableAndBrace : List Char := "\x7b\x7b.Executable\x7d\x7d\x7b-".toList

/-- Of two bad actions the first is told. -/
theorem check_refuses_at_first_bad_action_undotted :
    FirstBad "\x7b\x7b.Executable\x7d\x7d\x7b-\x7b\x7b x \x7d\x7d\x7b\x7b".toList
        executableAndBrace (enclose " x ".toList ++ ['\x7b', '\x7b'])
        "unsupported action 'x'" ∧
      UpToClosing " x ".toList ∧
      (∃ fault, check "\x7b\x7b.Executable\x7d\x7d\x7b-\x7b\x7b x \x7d\x7d\x7b\x7b" =
        .error fault ∧ fault.message = "unsupported action 'x'") ∧
      (∀ good bad message, FirstBad
        "\x7b\x7b.Executable\x7d\x7d\x7b-\x7b\x7b x \x7d\x7d\x7b\x7b".toList good bad message →
          good = executableAndBrace) ∧
      FirstBad (executableAndBrace ++ (enclose " x ".toList ++ ['.']))
        executableAndBrace (enclose " x ".toList ++ ['.']) "unsupported action 'x'" := by
  obtain ⟨hrefuses, hunique, hreplace⟩ := check_refuses_at_first_bad_action
  have hclosed : UpToClosing " x ".toList := ⟨by decide, by decide⟩
  have htrim : Text.TrimsTo " x ".toList ['x'] := Text.trimsTo_iff.mpr (by decide)
  have hbad : Diagnosis (enclose " x ".toList ++ ['\x7b', '\x7b']) "unsupported action 'x'" :=
    .unsupported _ hclosed htrim (by decide)
  have haccepted : check (String.ofList executableAndBrace) = .ok () :=
    check_ofList_written
      { stretches := [⟨[], ⟨[], .executable, [], by decide, by decide⟩, by decide, by decide⟩]
        rest := ['\x7b', '-']
        not_hasPair := by decide }
  have hfirst : FirstBad "\x7b\x7b.Executable\x7d\x7d\x7b-\x7b\x7b x \x7d\x7d\x7b\x7b".toList
      executableAndBrace (enclose " x ".toList ++ ['\x7b', '\x7b'])
      "unsupported action 'x'" :=
    ⟨by decide, haccepted, by decide, hbad⟩
  refine ⟨hfirst, hclosed, (hrefuses _ _).mpr ⟨_, _, hfirst⟩, ?_, hreplace hfirst hclosed ['.']⟩
  intro good bad message h
  exact (hunique h hfirst).1

end Unique

end Extraction.Template
