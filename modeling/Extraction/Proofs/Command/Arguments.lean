import Extraction.Command.Arguments
import Extraction.Success

/-!
# Command lines

The command line that lists the methods and the one that describes a method
name the configuration alike, so both are usable or both are unusable for the
same reason. What stands behind two hyphens is an operand, whatever it looks
like.

Arguments are taken in from left to right, so those at the front of a usable
command line leave something that does not depend on what follows them.
-/

namespace Extraction.Command

/-- The arguments that name the configuration, if one is named. -/
def configArguments : Option Path → List String
  | some path => ["--config", path]
  | none => []

/-- The arguments that ask for all methods as JSON. -/
def listLine (explicit : Option Path) : List String :=
  "list" :: configArguments explicit ++ ["--format", "json"]

/-- The arguments that ask for one method as JSON. -/
def describeLine (name : String) (explicit : Option Path) : List String :=
  "show" :: configArguments explicit ++ ["--format", "json", "--", name]

/-- A path that an option takes is not empty and does not look like an option. -/
def checkPath : Option Path → Except UsageError Unit
  | some path =>
    if isOption path then .error (.missingValue "config")
    else if path.isEmpty then .error (.badValue "config" path)
    else .ok ()
  | none => .ok ()

variable {s : Subcommand}

theorem addAll_operands (g : Given) (rest : List String) :
    Given.addAll s g ("--" :: rest) = g.addOperands s rest := rfl

theorem addAll_config (hs : s.takesConfig) (g : Given) (path : Path) (rest : List String) :
    Given.addAll s g ("--config" :: path :: rest) =
      if isOption path then .error (.missingValue "config")
      else g.addConfig path >>= fun given => Given.addAll s given rest := by
  have hread : s.readOption "--config" = .ok ⟨.config, none⟩ := by
    cases s
    · rfl
    · rfl
    · cases hs
  rw [Given.addAll.eq_def]
  dsimp only
  rw [if_neg (by decide), if_neg (by decide), hread]

theorem addAll_format (g : Given) (value : String) (rest : List String) :
    Given.addAll s g ("--format" :: value :: rest) =
      if isOption value then .error (.missingValue "format")
      else g.addFormat value >>= fun given => Given.addAll s given rest := by
  have hread : s.readOption "--format" = .ok ⟨.format, none⟩ := by
    cases s <;> rfl
  rw [Given.addAll.eq_def]
  dsimp only
  rw [if_neg (by decide), if_neg (by decide), hread]

theorem addAll_json (explicit : Option Path) (rest : List String) :
    Given.addAll s { config := explicit } ("--format" :: "json" :: rest) =
      Given.addAll s { config := explicit, format := some .json } rest := by
  rw [addAll_format, if_neg (by decide)]
  rfl

theorem addAll_configArguments (hs : s.takesConfig) (explicit : Option Path) (rest : List String) :
    Given.addAll s {} (configArguments explicit ++ rest) =
      checkPath explicit >>= fun _ => Given.addAll s { config := explicit } rest := by
  cases explicit with
  | none => rfl
  | some path =>
      rw [configArguments, List.cons_append, List.singleton_append, addAll_config hs, checkPath]
      split
      · rfl
      · rw [Given.addConfig, if_neg (by decide)]
        split <;> rfl

theorem parse_listLine (explicit : Option Path) :
    parse (listLine explicit) = (checkPath explicit).map fun _ => .list explicit .json := by
  have hline : parse (listLine explicit) =
      Given.addAll .list {} (configArguments explicit ++ ["--format", "json"]) := rfl
  rw [hline, addAll_configArguments rfl, addAll_json]
  cases checkPath explicit <;> rfl

theorem parse_describeLine (name : String) (explicit : Option Path) :
    parse (describeLine name explicit) =
      (checkPath explicit).map fun _ => .describe name explicit .json := by
  have hline : parse (describeLine name explicit) =
      Given.addAll .describe {}
        (configArguments explicit ++ ["--format", "json", "--", name]) := rfl
  rw [hline, addAll_configArguments rfl, addAll_json, addAll_operands]
  cases checkPath explicit <;> rfl

/-- Arguments that are taken in, and leave what is given by then to those that follow. -/
def Leaves (s : Subcommand) (g : Given) (arguments : List String) (given : Given) : Prop :=
  ∀ rest, Given.addAll s g (arguments ++ rest) = Given.addAll s given rest

section Leaves

variable {g given : Given} {argument : String}

theorem leaves_nil (g : Given) : Leaves s g [] g := fun _ => rfl

theorem Leaves.append {middle : Given} {first second : List String}
    (hfirst : Leaves s g first middle) (hsecond : Leaves s middle second given) :
    Leaves s g (first ++ second) given := by
  intro rest
  rw [List.append_assoc, hfirst, hsecond]

theorem leaves_operand (hplain : !isOption argument) (hadd : g.addOperand s argument = .ok given) :
    Leaves s g [argument] given := by
  intro rest
  have hmark : argument ≠ "--" := by
    rintro rfl
    cases hplain
  rw [List.singleton_append, Given.addAll.eq_def]
  simp only [if_neg hmark, if_pos hplain, hadd]
  rfl

section Options

variable {value : String} (hmark : argument ≠ "--") (hoption : ¬ !isOption argument)
include hmark hoption

theorem leaves_list (hread : s.readOption argument = .ok ⟨.list, none⟩) (hfirst : ¬ g.isList) :
    Leaves s g [argument] { g with isList := true } := by
  intro rest
  rw [List.singleton_append, Given.addAll.eq_def]
  simp only [if_neg hmark, if_neg hoption, hread, if_neg hfirst]

theorem leaves_config (hread : s.readOption argument = .ok ⟨.config, some value⟩)
    (hadd : g.addConfig value = .ok given) : Leaves s g [argument] given := by
  intro rest
  rw [List.singleton_append, Given.addAll.eq_def]
  simp only [if_neg hmark, if_neg hoption, hread, hadd]
  rfl

theorem leaves_config_value (hread : s.readOption argument = .ok ⟨.config, none⟩)
    (hvalue : ¬ isOption value) (hadd : g.addConfig value = .ok given) :
    Leaves s g [argument, value] given := by
  intro rest
  rw [List.cons_append, List.singleton_append, Given.addAll.eq_def]
  simp only [if_neg hmark, if_neg hoption, hread, if_neg hvalue, hadd]
  rfl

theorem leaves_format (hread : s.readOption argument = .ok ⟨.format, some value⟩)
    (hadd : g.addFormat value = .ok given) : Leaves s g [argument] given := by
  intro rest
  rw [List.singleton_append, Given.addAll.eq_def]
  simp only [if_neg hmark, if_neg hoption, hread, hadd]
  rfl

theorem leaves_format_value (hread : s.readOption argument = .ok ⟨.format, none⟩)
    (hvalue : ¬ isOption value) (hadd : g.addFormat value = .ok given) :
    Leaves s g [argument, value] given := by
  intro rest
  rw [List.cons_append, List.singleton_append, Given.addAll.eq_def]
  simp only [if_neg hmark, if_neg hoption, hread, if_neg hvalue, hadd]
  rfl

end Options

/-- The arguments are taken in up to the end, and nothing more is needed for the request. -/
def Settles (s : Subcommand) (g : Given) (arguments : List String) (request : Request) : Prop :=
  ∃ given, Leaves s g arguments given ∧ given.request s = .ok request

theorem Leaves.settles {front rest : List String} {request : Request}
    (hfront : Leaves s g front given) (hrest : Settles s given rest request) :
    Settles s g (front ++ rest) request := by
  obtain ⟨last, hleaves, hrequest⟩ := hrest
  exact ⟨last, hfront.append hleaves, hrequest⟩

/-- What the arguments of a usable command line leave is what is asked for when nothing follows.
Two hyphens or a request for help would change what those that follow mean. -/
theorem settles_of_addAll {arguments : List String} {request : Request}
    (h : Given.addAll s g arguments = .ok request) (hhelp : request ≠ .help (.subcommand s))
    (hmark : "--" ∉ arguments) : Settles s g arguments request := by
  fun_induction Given.addAll s g arguments with
  | case1 g => exact ⟨g, leaves_nil g, h⟩
  | case2 => exact absurd List.mem_cons_self hmark
  | case3 g argument rest _ hplain ih =>
      obtain ⟨middle, hadd, hrest⟩ := ok_of_bind h
      have hlater := ih middle hrest (List.not_mem_of_not_mem_cons hmark)
      exact (leaves_operand hplain hadd).settles hlater
  | case5 => cases h; exact absurd rfl hhelp
  | case8 g argument hfirst hoption rest hread honce ih =>
      have hlater := ih h (List.not_mem_of_not_mem_cons hmark)
      exact (leaves_list hfirst hoption hread honce).settles hlater
  | case10 g argument hfirst hoption value rest hread ih =>
      obtain ⟨middle, hadd, hrest⟩ := ok_of_bind h
      have hlater := ih middle hrest (List.not_mem_of_not_mem_cons hmark)
      exact (leaves_config hfirst hoption hread hadd).settles hlater
  | case11 g argument hfirst hoption value rest hread ih =>
      obtain ⟨middle, hadd, hrest⟩ := ok_of_bind h
      have hlater := ih middle hrest (List.not_mem_of_not_mem_cons hmark)
      exact (leaves_format hfirst hoption hread hadd).settles hlater
  | case13 g argument hfirst hoption value rest hread hvalue ih =>
      obtain ⟨middle, hadd, hrest⟩ := ok_of_bind h
      have hlater := ih middle hrest
        (List.not_mem_of_not_mem_cons (List.not_mem_of_not_mem_cons hmark))
      exact (leaves_config_value hfirst hoption hread hvalue hadd).settles hlater
  | case15 g argument hfirst hoption value rest hread hvalue ih =>
      obtain ⟨middle, hadd, hrest⟩ := ok_of_bind h
      have hlater := ih middle hrest
        (List.not_mem_of_not_mem_cons (List.not_mem_of_not_mem_cons hmark))
      exact (leaves_format_value hfirst hoption hread hvalue hadd).settles hlater
  -- In all other cases an argument is refused.
  | _ => cases h

end Leaves

end Extraction.Command
