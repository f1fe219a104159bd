import Extraction.Proofs.Yaml.Content
import Mathlib.Data.List.Nodup
import Mathlib.Data.List.Pairwise
import Mathlib.Data.List.Perm.Basic

/-!
# Structures with known fields

A structure is read by putting the value of each field into it. Where each field
has a place of its own these updates commute, so a mapping has a value that does
not depend on the order of its entries. It has none when a key is unknown or
stands there twice.
-/

namespace Extraction.Yaml

/-- The types of fields. -/
inductive FieldType
  | text
  | flag
  | list
  | optional
deriving DecidableEq

/-- A content that is the default of a type: no text, false, no items, or nothing. -/
inductive FieldType.IsDefault : FieldType → Content → Prop
  | text (plain : Bool) : IsDefault text (.scalar [] plain)
  | flag : IsDefault flag (.scalar "false".toList true)
  | list : IsDefault list (.sequence [])
  | optional {content : Content} : content.isNothing = true → IsDefault optional content

/-- A field of a structure: how its value is read and put into the structure. -/
structure Slot (α : Type) where
  name : String
  type : FieldType
  {Value : Type}
  read : Document → List Step → Node → Reading Value
  value? : Content → Option Value
  /-- The value of a field that is missing. -/
  absent : Value
  put : Value → α → α
  answers : ∀ d, Answers (read d) value?
  value?_of_isDefault : ∀ {content}, type.IsDefault content → value? content = some absent

namespace Slot

variable {α β : Type}

def reader (slot : Slot α) (d : Document) : Document.FieldReader α where
  name := slot.name
  read path node a := return slot.put (← slot.read d path node) a

/-- A field that is a text. -/
def text (name : String) (expected : String) (put : String → α → α) : Slot α where
  name := name
  type := .text
  read d := d.readText expected
  value? := Content.text?
  absent := ""
  put := put
  answers d := d.answers_readText expected
  value?_of_isDefault h := by
    cases h
    rfl

/-- A field that is a truth value. -/
def flag (name : String) (put : Bool → α → α) : Slot α where
  name := name
  type := .flag
  read d := d.readBool
  value? := Content.flag?
  absent := false
  put := put
  answers d := d.answers_readBool
  value?_of_isDefault h := by
    cases h
    rfl

/-- A field that may be nothing. -/
def optional (name : String) (read : Document → List Step → Node → Reading β)
    (value? : Content → Option β) (answers : ∀ d, Answers (read d) value?)
    (put : Option β → α → α) : Slot α where
  name := name
  type := .optional
  read d := d.readOptional (read d)
  value? := Content.optional? value?
  absent := none
  put := put
  answers d := d.answers_readOptional (answers d)
  value?_of_isDefault h := by
    cases h with
    | optional hnothing => rw [Content.optional?, if_pos hnothing]

/-- A field that is a list. -/
def list (name : String) (read : Document → List Step → Node → Reading β)
    (value? : Content → Option β) (answers : ∀ d, Answers (read d) value?)
    (put : List β → α → α) : Slot α where
  name := name
  type := .list
  read d := d.readList (read d)
  value? := Content.list? value?
  absent := []
  put := put
  answers d := d.answers_readList (answers d)
  value?_of_isDefault h := by
    cases h
    rfl

end Slot

/-- The values of two fields may be put in one before the other or the other way round. -/
def Slot.Commutes {α : Type} (s t : Slot α) : Prop :=
  ∀ v w a, s.put v (t.put w a) = t.put w (s.put v a)

instance {α : Type} : Std.Symm (@Slot.Commutes α) where
  symm _ _ h v w a := (h w v a).symm

/-- The fields of a structure. Each has a place of its own, which holds the field's default in a
structure without fields. -/
structure Shape (α : Type) where
  name : String
  slots : List (Slot α)
  initial : α
  commute : slots.Pairwise Slot.Commutes
  absent : ∀ s ∈ slots, s.put s.absent initial = initial

/-- A named update of a structure. -/
structure Update (α : Type) where
  name : String
  apply : α → α

namespace Shape

variable {α : Type} (shape : Shape α)

/-- The field of a name. -/
def slot? (name : String) : Option (Slot α) := shape.slots.find? (·.name == name)

/-- What an entry puts into the structure. -/
def update? (entry : Content × Content) : Option (Update α) :=
  (entry.1.text?.bind shape.slot?).bind fun slot =>
    (slot.value? entry.2).map fun value => ⟨slot.name, slot.put value⟩

/-- What updates make of a structure, unless a name is there twice or was seen before. -/
def applyAfter? (seen : List String) (a : α) (updates : List (Update α)) : Option α :=
  if (updates.map Update.name).Nodup ∧ ∀ u ∈ updates, u.name ∉ seen then
    some (updates.foldl (fun a u => u.apply a) a)
  else none

/-- The structure in a content. -/
def value? : Content → Option α
  | .mapping entries => (entries.mapM shape.update?).bind (applyAfter? [] shape.initial)
  | content => if content.isEmpty then some shape.initial else none

/-- Reads the structure. -/
def read (d : Document) : List Step → Node → Reading α :=
  d.readStructure shape.name (shape.slots.map (·.reader d)) shape.initial

theorem applyAfter?_cons (seen : List String) (a : α) (u : Update α) (updates : List (Update α)) :
    applyAfter? seen a (u :: updates) =
      if seen.contains u.name then none
      else applyAfter? (u.name :: seen) (u.apply a) updates := by
  unfold applyAfter?
  by_cases hseen : u.name ∈ seen
  · simp [hseen]
  · have hcondition : ((u :: updates).map Update.name).Nodup ∧ (∀ w ∈ u :: updates, w.name ∉ seen) ↔
        (updates.map Update.name).Nodup ∧ ∀ w ∈ updates, w.name ∉ u.name :: seen := by
      simp only [List.map_cons, List.nodup_cons, List.mem_map, List.mem_cons, not_or]
      grind
    simp only [hcondition, List.foldl_cons, List.contains_eq_mem, hseen, decide_false,
      Bool.false_eq_true, ↓reduceIte]

variable {shape} (d : Document)

theorem gives_readKey (path : List Step) {key : Node} {content : Content}
    (h : key.content? = some content) :
    Gives (d.readKey (shape.slots.map (·.reader d)) path key)
      ((content.text?.bind shape.slot?).map (·.reader d)) := by
  rw [Document.readKey, d.resolve_of_content? h, pure_bind, Option.map_bind]
  refine (d.answers_readText _ h path).bind fun name => ?_
  have hfind : (shape.slots.map (·.reader d)).find? (·.name == name) =
      (shape.slot? name).map (·.reader d) := List.find?_map
  rw [hfind, Function.comp_apply]
  cases shape.slot? name with
  | some slot => exact gives_pure _
  | none =>
      cases key <;> exact gives_refuse _ _

theorem update?_of_slot {entry : Content × Content} {slot : Slot α}
    (h : entry.1.text?.bind shape.slot? = some slot) :
    shape.update? entry = (slot.value? entry.2).map fun value => ⟨slot.name, slot.put value⟩ := by
  rw [update?, h]
  rfl

/-- The entries of a mapping are taken one after the other. -/
theorem mapM_update?_cons_bind {entry : Content × Content} {slot : Slot α}
    (h : entry.1.text?.bind shape.slot? = some slot) (rest : List (Content × Content))
    (seen : List String) (a : α) :
    ((entry :: rest).mapM shape.update?).bind (applyAfter? seen a) =
      if seen.contains slot.name then none
      else (slot.value? entry.2).bind fun value =>
        (rest.mapM shape.update?).bind (applyAfter? (slot.name :: seen) (slot.put value a)) := by
  rw [List.mapM_cons, update?_of_slot h]
  cases slot.value? entry.2 <;> cases rest.mapM shape.update? <;> simp [applyAfter?_cons]

theorem gives_readFields (path : List Step) {entries : List (Node × Node)}
    {contents : List (Content × Content)} (h : contentOfEntries? entries = some contents)
    (seen : List String) (a : α) :
    Gives (d.readFields (shape.slots.map (·.reader d)) path seen a entries)
      ((contents.mapM shape.update?).bind (applyAfter? seen a)) := by
  induction entries generalizing contents seen a with
  | nil =>
      cases h
      exact gives_pure a
  | cons entry rest ih =>
      obtain ⟨key, node⟩ := entry
      obtain ⟨keyContent, hkey, h⟩ := Option.bind_eq_some_iff.mp h
      obtain ⟨content, hcontent, h⟩ := Option.bind_eq_some_iff.mp h
      obtain ⟨contents, hcontents, heq⟩ := Option.bind_eq_some_iff.mp h
      cases heq
      have hreadKey := @gives_readKey _ shape d path _ _ hkey
      rw [Document.readFields]
      cases hslot : keyContent.text?.bind shape.slot? with
      | none =>
          rw [hslot] at hreadKey
          rw [List.mapM_cons, update?, hslot]
          exact hreadKey.bind_of_none _
      | some slot =>
          rw [hslot] at hreadKey
          rw [hreadKey.bind_of_some, mapM_update?_cons_bind hslot]
          change Gives (if seen.contains slot.name = true then _ else _) _
          split
          · exact gives_refuse _ _
          · change Gives ((slot.read d _ node >>= fun value => pure (slot.put value a)) >>= _) _
            rw [bind_assoc]
            refine (slot.answers d hcontent _).bind fun value => ?_
            rw [pure_bind]
            exact ih hcontents _ _

/-- What is read is the structure in the content. -/
theorem answers_read : Answers (shape.read d) shape.value? := by
  intro node content h path
  cases Node.has_of_content? h with
  | scalar mark anchor text style =>
      exact gives_pure_or_refuse (style == .plain && text.isEmpty) shape.initial _ _
  | sequence mark anchor => exact gives_refuse _ _
  | mapping mark anchor hentries =>
      exact (gives_readFields d path hentries [] shape.initial).placed ⟨path, mark⟩

theorem name_of_slot? {name : String} {slot : Slot α} (h : shape.slot? name = some slot) :
    slot.name = name := by
  simpa using List.find?_some h

theorem mem_of_slot? {name : String} {slot : Slot α} (h : shape.slot? name = some slot) :
    slot ∈ shape.slots :=
  List.mem_of_find?_eq_some h

/-- An update is that of the field the key names, with the value of the content. -/
theorem exists_slot_of_update? {entry : Content × Content} {u : Update α}
    (h : shape.update? entry = some u) :
    ∃ slot value, shape.slot? slot.name = some slot ∧ entry.1.text? = some slot.name ∧
      slot.value? entry.2 = some value ∧ u = ⟨slot.name, slot.put value⟩ := by
  obtain ⟨slot, hslot, hupdate⟩ := Option.bind_eq_some_iff.mp h
  obtain ⟨name, hname, hfind⟩ := Option.bind_eq_some_iff.mp hslot
  obtain ⟨value, hvalue, rfl⟩ := Option.map_eq_some_iff.mp hupdate
  obtain rfl := name_of_slot? hfind
  exact ⟨slot, value, hfind, hname, hvalue, rfl⟩

section Updates

variable {entries entries' : List (Content × Content)} {updates : List (Update α)}

/-- Each update comes from an entry. -/
theorem exists_entry_of_mem (h : entries.mapM shape.update? = some updates) {u : Update α}
    (hu : u ∈ updates) : ∃ entry ∈ entries, shape.update? entry = some u := by
  have hmem : some u ∈ entries.map shape.update? := by
    rw [Content.mapM_eq_some_iff.mp h]
    exact List.mem_map_of_mem hu
  exact List.mem_map.mp hmem

/-- Each entry makes an update. -/
theorem exists_update_of_mem (h : entries.mapM shape.update? = some updates)
    {entry : Content × Content} (hentry : entry ∈ entries) :
    ∃ u ∈ updates, shape.update? entry = some u := by
  have hmem : shape.update? entry ∈ updates.map some := by
    rw [← Content.mapM_eq_some_iff.mp h]
    exact List.mem_map_of_mem hentry
  obtain ⟨u, hu, heq⟩ := List.mem_map.mp hmem
  exact ⟨u, hu, heq.symm⟩

/-- The updates of entries in another order are the same in another order. -/
theorem exists_perm_updates (h : entries.Perm entries')
    (hupdates : entries.mapM shape.update? = some updates) :
    ∃ updates', entries'.mapM shape.update? = some updates' ∧ updates.Perm updates' := by
  obtain ⟨updates', hupdates', hperm⟩ :=
    List.perm_comp_forall₂ h.symm (Content.mapM_eq_some_iff_forall₂.mp hupdates)
  exact ⟨updates', Content.mapM_eq_some_iff_forall₂.mpr hupdates', hperm.symm⟩

/-- Updates of different names commute. -/
theorem update_commute (h : entries.mapM shape.update? = some updates) {u w : Update α}
    (hu : u ∈ updates) (hw : w ∈ updates) (hname : u.name ≠ w.name) (a : α) :
    w.apply (u.apply a) = u.apply (w.apply a) := by
  obtain ⟨_, _, hu⟩ := exists_entry_of_mem h hu
  obtain ⟨_, _, hw⟩ := exists_entry_of_mem h hw
  obtain ⟨s, v, hs, _, _, rfl⟩ := exists_slot_of_update? hu
  obtain ⟨t, v', ht, _, _, rfl⟩ := exists_slot_of_update? hw
  have hne : t ≠ s := by
    rintro rfl
    exact hname rfl
  exact shape.commute.forall (mem_of_slot? ht) (mem_of_slot? hs) hne v' v a

theorem applyAfter?_perm (h : entries.mapM shape.update? = some updates)
    {updates' : List (Update α)} (hperm : updates.Perm updates') (a : α) :
    applyAfter? [] a updates = applyAfter? [] a updates' := by
  have hnames := (hperm.map Update.name).nodup_iff
  by_cases hnodup : (updates.map Update.name).Nodup
  · have hfold : updates.foldl (fun a u => u.apply a) a =
        updates'.foldl (fun a u => u.apply a) a := by
      refine hperm.foldl_eq' (fun u hu w hw z => ?_) a
      by_cases hname : u.name = w.name
      · rw [List.inj_on_of_nodup_map hnodup hu hw hname]
      · exact update_commute h hu hw hname z
    simp [applyAfter?, hnodup, hnames.mp hnodup, hfold]
  · simp [applyAfter?, hnodup, mt hnames.mpr hnodup]

/-- The order of a mapping's entries does not matter. -/
theorem value?_perm (h : entries.Perm entries') :
    shape.value? (.mapping entries) = shape.value? (.mapping entries') := by
  rw [value?, value?]
  cases hupdates : entries.mapM shape.update? with
  | some updates =>
      obtain ⟨updates', hupdates', hperm⟩ := exists_perm_updates h hupdates
      rw [hupdates', Option.bind_some, Option.bind_some]
      exact applyAfter?_perm hupdates hperm shape.initial
  | none =>
      cases hupdates' : entries'.mapM shape.update? with
      | none => rfl
      | some updates' =>
          obtain ⟨updates, hsome, _⟩ := exists_perm_updates h.symm hupdates'
          rw [hupdates] at hsome
          cases hsome

/-- An entry may be replaced by one that makes the same update. -/
theorem value?_of_update?_eq {before after : List (Content × Content)}
    {entry entry' : Content × Content} (h : shape.update? entry = shape.update? entry') :
    shape.value? (.mapping (before ++ entry :: after)) =
      shape.value? (.mapping (before ++ entry' :: after)) := by
  rw [value?, value?, Content.mapM_replace h]

/-- A mapping that has a value has known keys only, each of them once and with a value. -/
theorem keys_of_value? {a : α} (h : shape.value? (.mapping entries) = some a) :
    (∀ entry ∈ entries, ∃ slot, shape.slot? slot.name = some slot ∧
      entry.1.text? = some slot.name ∧ (slot.value? entry.2).isSome) ∧
    (entries.map (·.1.text?)).Nodup := by
  obtain ⟨updates, hupdates, happly⟩ := Option.bind_eq_some_iff.mp h
  have hslots : ∀ entry ∈ entries, ∃ u slot, shape.update? entry = some u ∧
      shape.slot? slot.name = some slot ∧ entry.1.text? = some slot.name ∧
      (slot.value? entry.2).isSome ∧ u.name = slot.name := by
    intro entry hentry
    obtain ⟨u, _, hu⟩ := exists_update_of_mem hupdates hentry
    obtain ⟨slot, value, hslot, hname, hvalue, rfl⟩ := exists_slot_of_update? hu
    exact ⟨_, slot, hu, hslot, hname, by rw [hvalue]; rfl, rfl⟩
  constructor
  · intro entry hentry
    obtain ⟨_, slot, _, hslot, hname, hvalue, _⟩ := hslots entry hentry
    exact ⟨slot, hslot, hname, hvalue⟩
  · have hnames : entries.map (·.1.text?) = (updates.map Update.name).map some := by
      calc entries.map (·.1.text?)
          = entries.map (fun entry => (shape.update? entry).map Update.name) := by
            refine List.map_congr_left fun entry hentry => ?_
            obtain ⟨u, slot, hu, _, hname, _, huname⟩ := hslots entry hentry
            rw [hu, hname, Option.map_some, huname]
        _ = (entries.map shape.update?).map (Option.map Update.name) := by rw [List.map_map]; rfl
        _ = (updates.map some).map (Option.map Update.name) := by
            rw [Content.mapM_eq_some_iff.mp hupdates]
        _ = (updates.map Update.name).map some := by rw [List.map_map, List.map_map]; rfl
    have hnodup : (updates.map Update.name).Nodup := by
      unfold applyAfter? at happly
      split at happly
      next hcondition => exact hcondition.1
      next => cases happly
    rw [hnames]
    exact hnodup.map fun _ _ => Option.some.inj

/-- A missing field is as good as one with its default. -/
theorem value?_of_isDefault {name : String} {slot : Slot α} {key content : Content}
    {before after : List (Content × Content)} (hslot : shape.slot? name = some slot)
    (hkey : key.text? = some name) (hdefault : slot.type.IsDefault content)
    (hmissing : ∀ entry ∈ before ++ after, entry.1.text? ≠ some name) :
    shape.value? (.mapping (before ++ (key, content) :: after)) =
      shape.value? (.mapping (before ++ after)) := by
  have hkeySlot : key.text?.bind shape.slot? = some slot := by
    rw [hkey, Option.bind_some, hslot]
  have hname := name_of_slot? hslot
  have habsent : slot.put slot.absent shape.initial = shape.initial :=
    shape.absent slot (mem_of_slot? hslot)
  rw [value?_perm List.perm_middle, value?, value?, mapM_update?_cons_bind hkeySlot,
    slot.value?_of_isDefault hdefault, Option.bind_some, habsent]
  change ((before ++ after).mapM shape.update?).bind (applyAfter? [slot.name] shape.initial) = _
  cases hupdates : (before ++ after).mapM shape.update? with
  | none => rfl
  | some updates =>
      -- No other update is of this name, so it does not matter that it was seen.
      have hother : ∀ u ∈ updates, u.name ≠ slot.name := by
        intro u hu heq
        obtain ⟨entry, hentry, hu⟩ := exists_entry_of_mem hupdates hu
        obtain ⟨s, _, _, hs, _, rfl⟩ := exists_slot_of_update? hu
        exact hmissing entry hentry (by rw [hs, ← hname]; exact congrArg some heq)
      have hcondition : ((updates.map Update.name).Nodup ∧ ∀ u ∈ updates, u.name ∉ [slot.name]) ↔
          (updates.map Update.name).Nodup ∧ ∀ u ∈ updates, u.name ∉ [] :=
        and_congr_right fun _ => ⟨fun _ _ _ => List.not_mem_nil, fun _ u hu => by
          simpa using hother u hu⟩
      simp only [Option.bind_some, applyAfter?, hcondition]

end Updates

end Shape

end Extraction.Yaml
