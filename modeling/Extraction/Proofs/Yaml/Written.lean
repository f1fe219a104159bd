import Extraction.Proofs.Yaml.Plain
import Extraction.Proofs.Yaml.Shape
import Extraction.Tree

/-!
# Trees as they are read

A document presents a tree when its mappings, sequences and scalars are those of
the tree, and no text of the tree is taken for nothing. If the fields of a tree
are those of a structure, the structure that is read has their values.
-/

namespace Extraction.Yaml

mutual

/-- A content that a tree is read as. A text stands with or without quotes, but not so that it
stands for nothing. -/
inductive Presents : Tree → Content → Prop
  | text (value : String) {plain : Bool} :
      (Content.scalar value.toList plain).isNothing = false →
      Presents (.text value) (.scalar value.toList plain)
  | flag (value : Bool) : Presents (.flag value) (.scalar (toString value).toList true)
  | natural (value : Nat) : Presents (.natural value) (.scalar (Nat.toDigits 10 value) true)
  | list {items : List Tree} {contents : List Content} :
      List.Forall₂ Presents items contents → Presents (.list items) (.sequence contents)
  | fields {fields : List (String × Tree)} {entries : List (Content × Content)} :
      PresentsFields fields entries → Presents (.fields fields) (.mapping entries)

/-- The entries that fields are read as, in the same order. -/
inductive PresentsFields : List (String × Tree) → List (Content × Content) → Prop
  | nil : PresentsFields [] []
  | cons {name : String} {tree : Tree} {key content : Content} {fields : List (String × Tree)}
      {entries : List (Content × Content)} :
      key.text? = some name → Presents tree content → PresentsFields fields entries →
      PresentsFields ((name, tree) :: fields) ((key, content) :: entries)

end

namespace Presents

variable {α : Type} {content : Content}

theorem text?_eq {value : String} (h : Presents (.text value) content) :
    content.text? = some value := by
  cases h with
  | text => rw [Content.text?, String.ofList_toList]

theorem flag?_eq {value : Bool} (h : Presents (.flag value) content) :
    content.flag? = some value := by
  cases h with
  | flag => cases value <;> rfl

theorem natural?_eq {value : Nat} (hvalue : value < UInt64.size)
    (h : Presents (.natural value) content) : content.natural? = some value := by
  cases h with
  | natural => exact natural?_toDigits hvalue

theorem list?_eq {value? : Content → Option α} {tree : α → Tree} {items : List α}
    (hitem : ∀ item content, Presents (tree item) content → value? content = some item)
    (h : Presents (.list (items.map tree)) content) :
    Content.list? value? content = some items := by
  cases h with
  | list hcontents =>
      rw [Content.list?, Content.mapM_eq_some_iff_forall₂]
      apply List.Forall₂.flip
      exact (List.forall₂_map_left_iff.mp hcontents).imp hitem

/-- A text is not nothing, and no more is a natural. -/
theorem optional?_text_eq {value : String} (h : Presents (.text value) content) :
    Content.optional? Content.text? content = some (some value) := by
  have htext := h.text?_eq
  cases h with
  | text _ hsomething =>
      rw [Content.optional?, hsomething, htext]
      rfl

theorem optional?_natural_eq {value : Nat} (hvalue : value < UInt64.size)
    (h : Presents (.natural value) content) :
    Content.optional? Content.natural? content = some (some value) := by
  have hnatural := h.natural?_eq hvalue
  cases h with
  | natural =>
      obtain ⟨hempty, hnull⟩ := not_isNull_toDigits value
      rw [Content.optional?, hnatural, Content.isNothing, hempty, hnull]
      rfl

end Presents

namespace Shape

variable {α : Type} {shape : Shape α}

/-- However a field is presented, it makes this update. -/
def Writes (shape : Shape α) (field : String × Tree) (u : Update α) : Prop :=
  ∀ key content, key.text? = some field.1 → Presents field.2 content →
    shape.update? (key, content) = some u

theorem writes_of_slot {name : String} {tree : Tree} {slot : Slot α} {value : slot.Value}
    (hslot : shape.slot? name = some slot)
    (hvalue : ∀ content, Presents tree content → slot.value? content = some value) :
    shape.Writes (name, tree) ⟨name, slot.put value⟩ := by
  intro key content hkey htree
  have hkeySlot : key.text?.bind shape.slot? = some slot := by
    rw [hkey, Option.bind_some, hslot]
  rw [update?_of_slot hkeySlot, hvalue content htree, name_of_slot? hslot]
  rfl

theorem writes_text {name expected value : String} {put : String → α → α}
    (hslot : shape.slot? name = some (.text name expected put)) :
    shape.Writes (name, .text value) ⟨name, put value⟩ :=
  writes_of_slot hslot fun _ h => h.text?_eq

theorem writes_flag {name : String} {value : Bool} {put : Bool → α → α}
    (hslot : shape.slot? name = some (.flag name put)) :
    shape.Writes (name, .flag value) ⟨name, put value⟩ :=
  writes_of_slot hslot fun _ h => h.flag?_eq

theorem writes_list {β : Type} {name : String} {read : Document → List Step → Node → Reading β}
    {value? : Content → Option β} {answers : ∀ d, Answers (read d) value?} {put : List β → α → α}
    (hslot : shape.slot? name = some (.list name read value? answers put)) {tree : β → Tree}
    (hitem : ∀ item content, Presents (tree item) content → value? content = some item)
    (items : List β) : shape.Writes (name, .list (items.map tree)) ⟨name, put items⟩ :=
  writes_of_slot hslot fun _ h => h.list?_eq hitem

theorem writes_optional {β : Type} {name : String}
    {read : Document → List Step → Node → Reading β} {value? : Content → Option β}
    {answers : ∀ d, Answers (read d) value?} {put : Option β → α → α}
    (hslot : shape.slot? name = some (.optional name read value? answers put)) {tree : Tree}
    {value : β}
    (hvalue : ∀ content, Presents tree content →
      Content.optional? value? content = some (some value)) :
    shape.Writes (name, tree) ⟨name, put (some value)⟩ :=
  writes_of_slot hslot hvalue

theorem mapM_update?_of_presents {fields : List (String × Tree)} {updates : List (Update α)}
    (h : List.Forall₂ shape.Writes fields updates) {entries : List (Content × Content)}
    (hentries : PresentsFields fields entries) :
    entries.mapM shape.update? = some updates := by
  rw [Content.mapM_eq_some_iff_forall₂]
  induction h generalizing entries with
  | nil =>
      cases hentries
      exact .nil
  | cons hfield _ ih =>
      cases hentries with
      | cons hkey htree hrest => exact .cons (hfield _ _ hkey htree) (ih hrest)

/-- Where fields make updates of different names, the structure that is read is what these updates
make. -/
theorem value?_of_presents {fields : List (String × Tree)} {updates : List (Update α)}
    (h : List.Forall₂ shape.Writes fields updates) (hnodup : (updates.map Update.name).Nodup)
    {content : Content} (hcontent : Presents (.fields fields) content) :
    shape.value? content = some (updates.foldl (fun a u => u.apply a) shape.initial) := by
  cases hcontent with
  | fields hentries =>
      rw [value?, mapM_update?_of_presents h hentries, Option.bind_some, applyAfter?,
        if_pos ⟨hnodup, fun _ _ => List.not_mem_nil⟩]

end Shape

end Extraction.Yaml
