import Extraction.Yaml.Reading
import Mathlib.Data.List.Forall2

/-!
# What nodes say

A reading looks at the marks and anchors of nodes only to tell where something
does not fit. Without aliases and tags, what it takes from a node depends on the
content of the node alone: the text of scalars and whether they stand without
quotes, the items of sequences, and the entries of mappings.
-/

namespace Extraction.Yaml

/-- A node without marks and anchors, in which there are no aliases and no tags. -/
inductive Content
  | scalar (text : List Char) (plain : Bool)
  | sequence (items : List Content)
  | mapping (entries : List (Content × Content))

mutual

/-- Contents can be compared. -/
def Content.decEq : (a b : Content) → Decidable (a = b)
  | .scalar text plain, .scalar text' plain' =>
    decidable_of_iff (text = text' ∧ plain = plain') (by simp)
  | .sequence items, .sequence items' =>
    have := decEqItems items items'
    decidable_of_iff (items = items') (by simp)
  | .mapping entries, .mapping entries' =>
    have := decEqEntries entries entries'
    decidable_of_iff (entries = entries') (by simp)
  | .scalar .., .sequence _ => .isFalse nofun
  | .scalar .., .mapping _ => .isFalse nofun
  | .sequence _, .scalar .. => .isFalse nofun
  | .sequence _, .mapping _ => .isFalse nofun
  | .mapping _, .scalar .. => .isFalse nofun
  | .mapping _, .sequence _ => .isFalse nofun

def decEqItems : (a b : List Content) → Decidable (a = b)
  | [], [] => .isTrue rfl
  | item :: rest, item' :: rest' =>
    have := item.decEq item'
    have := decEqItems rest rest'
    decidable_of_iff (item = item' ∧ rest = rest') (by simp)
  | [], _ :: _ => .isFalse nofun
  | _ :: _, [] => .isFalse nofun

def decEqEntries : (a b : List (Content × Content)) → Decidable (a = b)
  | [], [] => .isTrue rfl
  | (key, value) :: rest, (key', value') :: rest' =>
    have := key.decEq key'
    have := value.decEq value'
    have := decEqEntries rest rest'
    decidable_of_iff (key = key' ∧ value = value' ∧ rest = rest') (by simp [and_assoc])
  | [], _ :: _ => .isFalse nofun
  | _ :: _, [] => .isFalse nofun

end

instance : DecidableEq Content := Content.decEq

mutual

/-- The content of a node, unless it holds an alias or a tag or breaks off. -/
def Node.content? : Node → Option Content
  | .scalar _ _ ⟨text, style, none⟩ => some (.scalar text (style == .plain))
  | .sequence _ _ items => (contentOfItems? items).map .sequence
  | .mapping _ _ entries => (contentOfEntries? entries).map .mapping
  | _ => none

def contentOfItems? : List Node → Option (List Content)
  | [] => some []
  | item :: rest => do
    let content ← item.content?
    let contents ← contentOfItems? rest
    return content :: contents

def contentOfEntries? : List (Node × Node) → Option (List (Content × Content))
  | [] => some []
  | (key, value) :: rest => do
    let key ← key.content?
    let value ← value.content?
    let contents ← contentOfEntries? rest
    return (key, value) :: contents

end

/-- A document that is complete, the only one of its text, and of this content. -/
structure Document.Says (d : Document) (content : Content) : Prop where
  content : d.root.content? = some content
  complete : d.break? = none
  single : d.isSingle = true

instance (d : Document) (content : Content) : Decidable (d.Says content) :=
  decidable_of_iff (d.root.content? = some content ∧ d.break? = none ∧ d.isSingle = true)
    ⟨fun ⟨hcontent, hcomplete, hsingle⟩ => ⟨hcontent, hcomplete, hsingle⟩,
      fun h => ⟨h.content, h.complete, h.single⟩⟩

namespace Content

variable {α : Type}

/-- The text of a scalar. -/
def text? : Content → Option String
  | .scalar text _ => some (String.ofList text)
  | _ => none

/-- The truth value of a scalar without quotes. -/
def flag? : Content → Option Bool
  | .scalar text true => bool? text
  | _ => none

/-- The natural of a scalar without quotes. -/
def natural? : Content → Option Nat
  | .scalar text true => Yaml.natural? UInt64.size text
  | _ => none

/-- A scalar without quotes that stands for nothing. -/
def isNothing : Content → Bool
  | .scalar text plain => plain && (text.isEmpty || isNull text)
  | _ => false

/-- A scalar without quotes and without text. -/
def isEmpty : Content → Bool
  | .scalar text plain => plain && text.isEmpty
  | _ => false

/-- A value, or nothing. -/
def optional? (value? : Content → Option α) (content : Content) : Option (Option α) :=
  if content.isNothing then some none else (value? content).map some

/-- The values of all items. -/
def list? (value? : Content → Option α) : Content → Option (List α)
  | .sequence items => items.mapM value?
  | content => if content.isEmpty then some [] else none

/-- There are values of all items exactly when each item has one. -/
theorem mapM_eq_some_iff {β : Type} {f : α → Option β} {as : List α} {bs : List β} :
    as.mapM f = some bs ↔ as.map f = bs.map some := by
  induction as generalizing bs with
  | nil => cases bs <;> simp
  | cons a as ih =>
      rw [List.mapM_cons]
      constructor
      · intro h
        obtain ⟨b, hb, h⟩ := Option.bind_eq_some_iff.mp h
        obtain ⟨rest, hrest, heq⟩ := Option.bind_eq_some_iff.mp h
        cases heq
        rw [List.map_cons, List.map_cons, hb, ih.mp hrest]
      · intro h
        cases bs with
        | nil => cases h
        | cons b rest =>
            obtain ⟨hb, hrest⟩ := List.cons.inj h
            rw [hb, ih.mpr hrest]
            rfl

theorem mapM_eq_some_iff_forall₂ {β : Type} {f : α → Option β} {as : List α} {bs : List β} :
    as.mapM f = some bs ↔ List.Forall₂ (fun a b => f a = some b) as bs := by
  rw [mapM_eq_some_iff, ← List.forall₂_eq_eq_eq]
  exact List.forall₂_map_left_iff.trans List.forall₂_map_right_iff

/-- An item may be replaced by one of the same value. -/
theorem mapM_replace {β : Type} {f : α → Option β} {before after : List α} {a a' : α}
    (h : f a = f a') : (before ++ a :: after).mapM f = (before ++ a' :: after).mapM f := by
  simp only [List.mapM_append, List.mapM_cons, h]

theorem isSome_of_mapM {β : Type} {f : α → Option β} {as : List α} (h : (as.mapM f).isSome) :
    ∀ a ∈ as, (f a).isSome := by
  obtain ⟨bs, hbs⟩ := Option.isSome_iff_exists.mp h
  intro a ha
  have hmem : f a ∈ bs.map some := by
    rw [← mapM_eq_some_iff.mp hbs]
    exact List.mem_map_of_mem ha
  obtain ⟨b, _, hb⟩ := List.mem_map.mp hmem
  rw [← hb]
  rfl

end Content

/-- The ways in which a node has a content. -/
inductive Node.Has : Node → Content → Prop
  | scalar (mark : Mark) (anchor : Option Nat) (text : List Char) (style : Style) :
      Has (.scalar mark anchor ⟨text, style, none⟩) (.scalar text (style == .plain))
  | sequence (mark : Mark) (anchor : Option Nat) {items : List Node} {contents : List Content} :
      contentOfItems? items = some contents → Has (.sequence mark anchor items) (.sequence contents)
  | mapping (mark : Mark) (anchor : Option Nat) {entries : List (Node × Node)}
      {contents : List (Content × Content)} :
      contentOfEntries? entries = some contents →
      Has (.mapping mark anchor entries) (.mapping contents)

theorem Node.has_of_content? {node : Node} {content : Content} (h : node.content? = some content) :
    node.Has content := by
  cases node with
  | missing => cases h
  | aliasOf => cases h
  | scalar mark anchor s =>
      obtain ⟨text, style, tag⟩ := s
      cases tag with
      | some => cases h
      | none =>
          cases h
          exact .scalar mark anchor text style
  | sequence mark anchor items =>
      obtain ⟨contents, hcontents, rfl⟩ := Option.map_eq_some_iff.mp h
      exact .sequence mark anchor hcontents
  | mapping mark anchor entries =>
      obtain ⟨contents, hcontents, rfl⟩ := Option.map_eq_some_iff.mp h
      exact .mapping mark anchor hcontents

/-- A reading comes to a value and follows no alias, or fails where there is no value. -/
def Gives {α : Type} (reading : Reading α) : Option α → Prop
  | some a => ∀ jumps, reading jumps = .ok (a, jumps)
  | none => ∀ jumps, ∃ failure, reading jumps = .error failure

/-- What is taken from a node is what `value?` says of its content, wherever the node stands. -/
def Answers {α : Type} (read : List Step → Node → Reading α) (value? : Content → Option α) : Prop :=
  ∀ {node : Node} {content : Content}, node.content? = some content →
    ∀ path, Gives (read path node) (value? content)

section Gives

variable {α β : Type}

theorem gives_pure (a : α) : Gives (pure a) (some a) := fun _ => rfl

theorem gives_refuse (m : Misfit) (place : Option Place) :
    Gives (refuse m place : Reading α) none :=
  fun _ => ⟨_, rfl⟩

theorem gives_pure_or_refuse (holds : Bool) (a : α) (m : Misfit) (place : Option Place) :
    Gives (if holds then pure a else refuse m place) (if holds then some a else none) := by
  cases holds with
  | true => exact gives_pure a
  | false => exact gives_refuse m place

theorem Gives.bind_of_some {reading : Reading α} {a : α} (h : Gives reading (some a))
    (next : α → Reading β) : reading >>= next = next a := by
  funext jumps
  change (reading jumps).bind (fun result => next result.1 result.2) = _
  rw [h jumps]
  rfl

theorem Gives.bind_of_none {reading : Reading α} (h : Gives reading none)
    (next : α → Reading β) : Gives (reading >>= next) none := by
  intro jumps
  obtain ⟨failure, hfailure⟩ := h jumps
  refine ⟨failure, ?_⟩
  change (reading jumps).bind (fun result => next result.1 result.2) = _
  rw [hfailure]
  rfl

theorem Gives.bind {reading : Reading α} {value : Option α} {next : α → Reading β}
    {next? : α → Option β} (h : Gives reading value) (hnext : ∀ a, Gives (next a) (next? a)) :
    Gives (reading >>= next) (value.bind next?) := by
  cases value with
  | none => exact h.bind_of_none next
  | some a =>
      rw [h.bind_of_some]
      exact hnext a

theorem Gives.map {reading : Reading α} {value : Option α} (h : Gives reading value) (f : α → β) :
    Gives (f <$> reading) (value.map f) := by
  rw [map_eq_pure_bind, Option.map_eq_bind]
  exact h.bind fun a => gives_pure (f a)

theorem Gives.placed {reading : Reading α} {value : Option α} (h : Gives reading value)
    (place : Place) : Gives (placed place reading) value := by
  cases value with
  | none =>
      intro jumps
      obtain ⟨failure, hfailure⟩ := h jumps
      rw [Yaml.placed, hfailure]
      split
      · exact ⟨_, rfl⟩
      · exact ⟨_, rfl⟩
  | some a =>
      intro jumps
      rw [Yaml.placed, h jumps]

end Gives

namespace Document

variable (d : Document) {α : Type}

theorem resolve_of_content? {node : Node} {content : Content} (h : node.content? = some content) :
    d.resolve node = pure node := by
  cases Node.has_of_content? h <;> rfl

theorem answers_readScalar {read? : Scalar → Option α} {value? : Content → Option α}
    (hscalar : ∀ text style, value? (.scalar text (style == .plain)) = read? ⟨text, style, none⟩)
    (hsequence : ∀ items, value? (.sequence items) = none)
    (hmapping : ∀ entries, value? (.mapping entries) = none) (expected : String) :
    Answers (d.readScalar read? expected) value? := by
  intro node content h path
  cases Node.has_of_content? h with
  | scalar mark anchor text style =>
      rw [hscalar]
      change Gives (match read? ⟨text, style, none⟩ with
        | some value => pure value
        | none => refuse _ _) _
      cases read? ⟨text, style, none⟩ with
      | none => exact gives_refuse _ _
      | some a => exact gives_pure a
  | sequence mark anchor =>
      rw [hsequence]
      exact gives_refuse _ _
  | mapping mark anchor =>
      rw [hmapping]
      exact gives_refuse _ _

theorem answers_readText (expected : String) : Answers (d.readText expected) Content.text? :=
  d.answers_readScalar (fun _ _ => rfl) (fun _ => rfl) (fun _ => rfl) expected

theorem answers_readBool : Answers d.readBool Content.flag? := by
  refine d.answers_readScalar (fun text style => ?_) (fun _ => rfl) (fun _ => rfl) _
  cases style <;> rfl

theorem answers_readNatural : Answers d.readNatural Content.natural? := by
  refine d.answers_readScalar (fun text style => ?_) (fun _ => rfl) (fun _ => rfl) _
  cases style <;> rfl

theorem answers_readOptional {read : List Step → Node → Reading α} {value? : Content → Option α}
    (h : Answers read value?) : Answers (d.readOptional read) (Content.optional? value?) := by
  intro node content hcontent path
  have hsome := (h hcontent path).map some
  cases Node.has_of_content? hcontent with
  | scalar mark anchor text style =>
      change Gives (if style != .plain then _
        else if text.isEmpty || isNull text then pure none else _) _
      rw [Content.optional?, Content.isNothing]
      by_cases hstyle : style = .plain
      · subst hstyle
        cases text.isEmpty || isNull text with
        | true => exact gives_pure none
        | false => exact hsome
      · have hquoted : (style == .plain) = false := by simpa using hstyle
        rw [hquoted] at hsome
        simp only [bne, hquoted]
        exact hsome
  | sequence mark anchor => exact hsome
  | mapping mark anchor => exact hsome

theorem gives_readItems {read : List Step → Node → Reading α} {value? : Content → Option α}
    (h : Answers read value?) {items : List Node} {contents : List Content}
    (hcontents : contentOfItems? items = some contents) (path : List Step) (index : Nat) :
    Gives (readItems read path index items) (contents.mapM value?) := by
  induction items generalizing contents index with
  | nil =>
      cases hcontents
      exact gives_pure []
  | cons item rest ih =>
      obtain ⟨content, hcontent, hrest⟩ := Option.bind_eq_some_iff.mp hcontents
      obtain ⟨more, hmore, heq⟩ := Option.bind_eq_some_iff.mp hrest
      cases heq
      rw [readItems, List.mapM_cons]
      exact (h hcontent _).bind fun value => (ih hmore _).bind fun values =>
        gives_pure (value :: values)

theorem answers_readList {read : List Step → Node → Reading α} {value? : Content → Option α}
    (h : Answers read value?) : Answers (d.readList read) (Content.list? value?) := by
  intro node content hcontent path
  cases Node.has_of_content? hcontent with
  | scalar mark anchor text style =>
      exact gives_pure_or_refuse (style == .plain && text.isEmpty) [] _ _
  | sequence mark anchor hitems => exact (gives_readItems h hitems path 0).placed ⟨path, mark⟩
  | mapping mark anchor => exact gives_refuse _ _

variable {d} {read : List Step → Node → Reading α} {value? : Content → Option α} {content : Content}

/-- What is read from a document that says something. -/
theorem Says.read_eq_ok (hd : d.Says content) (h : Answers read value?) {a : α}
    (ha : value? content = some a) : d.read read = .ok a := by
  have hrun := h hd.content []
  rw [ha] at hrun
  simp only [Document.read, StateT.run, hrun 0, hd.complete, hd.single]
  rfl

theorem Says.exists_read_eq_error (hd : d.Says content) (h : Answers read value?)
    (hnone : value? content = none) : ∃ failure, d.read read = .error failure := by
  have hrun := h hd.content []
  rw [hnone] at hrun
  obtain ⟨failure, hfailure⟩ := hrun 0
  refine ⟨failure, ?_⟩
  simp only [Document.read, StateT.run, hfailure]
  rfl

end Document

end Extraction.Yaml
