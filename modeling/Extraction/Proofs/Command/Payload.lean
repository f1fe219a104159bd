import Extraction.Proofs.Catalog.Provenance
import Extraction.Proofs.Command.Arguments
import Extraction.Proofs.Command.WireForm
import Extraction.Proofs.Text.Octets

/-!
# Payloads

A payload is an argument or what standard input holds. Both ways lead to the
same decoder with the same text, so it does not matter which one is taken. What
is printed as JSON holds nothing but records, so decoding it once more gives the
same records and prints the same text.
-/

namespace Extraction.Command

open Catalog (fullHost)

/-- Options for decoding that give no operand, and what they ask for. -/
structure IsFlags (flags : List String) (isList : Bool) (format : Format) : Prop where
  parsed : parse ("decode" :: flags) = .ok (.decode none isList format)
  unmarked : "--" ∉ flags

/-- The arguments that give an operand: one that does not look like an option, or any one behind two
hyphens. -/
inductive Gives : List String → Option String → Prop
  | nothing : Gives [] none
  | plain {text : String} (h : !isOption text) : Gives [text] (some text)
  | behind (operand : Option String) : Gives ("--" :: operand.toList) operand

/-- The operands for which the payload is read from standard input. -/
inductive FromInput : Option String → Prop
  | nothing : FromInput none
  | hyphen : FromInput (some "-")

def listArguments (isList : Bool) : List String := if isList then ["--list"] else []

def Format.name : Format → String
  | json => "json"
  | yaml => "yaml"

def formatArguments : Option Format → List String
  | some format => ["--format", format.name]
  | none => []

variable {host : Host} {input : Octets} {flags arguments : List String} {operand : Option String}
  {isList : Bool} {format : Format} {text payload : String}

theorem isFlags (isList : Bool) (format : Option Format) :
    IsFlags (listArguments isList ++ formatArguments format) isList (format.getD .json) := by
  cases isList <;> rcases format with _ | _ | _ <;> exact ⟨rfl, by decide⟩

/-- Options that give no operand leave room for one. -/
theorem IsFlags.parse_append (h : IsFlags flags isList format) (hgives : Gives arguments operand) :
    parse ("decode" :: (flags ++ arguments)) = .ok (.decode operand isList format) := by
  have hline (rest : List String) : parse ("decode" :: rest) = Given.addAll .decode {} rest := rfl
  obtain ⟨given, hleaves, hrequest⟩ := settles_of_addAll ((hline flags).symm.trans h.parsed)
    nofun h.unmarked
  obtain ⟨config, chosen, listed, _⟩ := given
  cases hrequest
  rw [hline, hleaves]
  cases hgives with
  | nothing => rfl
  | @plain text hplain =>
      have hadd : Given.addOperand ⟨config, chosen, listed, none⟩ .decode text =
        .ok ⟨config, chosen, listed, some text⟩ := rfl
      exact leaves_operand hplain hadd []
  | behind operand =>
      rw [addAll_operands]
      cases operand <;> rfl

theorem run_of_decode (h : parse arguments = .ok (.decode operand isList format)) :
    run host input arguments = .ofResult (decodePayload input operand isList format) := by
  rw [run, h]

theorem payloadText_of_fromInput (h : FromInput operand) (payload : String) :
    payloadText (Octets.ofString payload) operand = .ok payload := by
  have hnone : operand.filter (· != "-") = none := by
    cases h <;> rfl
  rw [payloadText, hnone, Config.textOf, Octets.toString?_ofString]
  rfl

theorem payloadText_of_operand (h : payload ≠ "-") :
    payloadText input (some payload) = .ok payload := by
  have hsome : (some payload).filter (· != "-") = some payload :=
    Option.filter_some_pos (bne_iff_ne.mpr h)
  rw [payloadText, hsome]

theorem decodePayload_of_text (h : payloadText input operand = .ok payload) :
    decodePayload input operand isList format =
      ((decodeTree payload isList).mapError reportOf).map format.write := by
  rw [decodePayload, h]
  rfl

/-- Records are decoded from what is written of them. -/
theorem decodeTree_write {tree : Tree} (h : decodeTree text isList = .ok tree) :
    decodeTree (Format.json.write tree) isList = .ok tree := by
  cases isList with
  | true =>
      obtain ⟨rs, _, rfl⟩ := ok_of_map h
      have hdecode := (Source.decode_written (Record.exact_listToValue rs)
        (Record.depth_listToValue_le_deepest rs)).2
      exact congrArg (Except.map _) (Record.listOfSource_of_decode hdecode)
  | false =>
      obtain ⟨r, _, rfl⟩ := ok_of_map h
      have hdecode := (Source.decode_written r.exact_toValue r.depth_toValue_le_deepest).2
      exact congrArg (Except.map _) (Record.ofSource_of_decode hdecode)

theorem decodePayload_stable {again : Option String} (hagain : FromInput again)
    (h : decodePayload input operand isList .json = .ok text) :
    decodePayload (Octets.ofString text) again isList .json = .ok text := by
  obtain ⟨payload, _, hrest⟩ := ok_of_bind h
  obtain ⟨tree, htree, hwrite⟩ := ok_of_bind hrest
  cases hwrite
  rw [decodePayload_of_text (payloadText_of_fromInput hagain _),
    decodeTree_write (ok_of_mapError htree)]
  rfl

/-- A payload is decoded alike whether an argument gives it or standard input holds it, whatever the
options are and however the payload looks. What is printed as JSON is printed again when it is
decoded with the same options. -/
theorem payload_alike_and_stable :
    (∀ (isList : Bool) (format : Option Format),
      IsFlags (listArguments isList ++ formatArguments format) isList (format.getD .json)) ∧
    ∀ {flags : List String} {isList : Bool} {format : Format}, IsFlags flags isList format →
      ∀ {given read : List String} {operand again : Option String},
        Gives given operand → Gives read again → FromInput again →
        ∀ (host host' : Host) (input : Octets),
          let outcome := run host input ("decode" :: (flags ++ given))
          (∀ payload, operand = some payload → payload ≠ "-" →
            run host' (Octets.ofString payload) ("decode" :: (flags ++ read)) = outcome) ∧
          (format = .json → outcome.exitCode = 0 →
            run host' (Octets.ofString outcome.stdout) ("decode" :: (flags ++ read)) =
              outcome) := by
  refine ⟨isFlags, ?_⟩
  intro flags isList format hflags given read operand again hgiven hread hinput host host' input
  have hread (input : Octets) : run host' input ("decode" :: (flags ++ read)) =
      .ofResult (decodePayload input again isList format) :=
    run_of_decode (hflags.parse_append hread)
  dsimp only
  rw [run_of_decode (hflags.parse_append hgiven)]
  constructor
  · intro payload hoperand hpayload
    rw [hread, hoperand, decodePayload_of_text (payloadText_of_operand hpayload),
      decodePayload_of_text (payloadText_of_fromInput hinput payload)]
  · intro hformat hexit
    cases hformat
    cases hresult : decodePayload input operand isList .json with
    | error report =>
        rw [hresult] at hexit
        cases hexit
    | ok text =>
        rw [hread, Outcome.ofResult, Outcome.stdout, decodePayload_stable hinput hresult]
        rfl

/-- The payload of two elements, of which one is no object and the other has a key of no record. -/
def uneven : String := "[\x7b\"Name\":\"-\\u0000\",\"Other\":[]\x7d,7]"

/-- A payload that looks like an option is not taken for one, and an uneven one is evened out
once. -/
theorem payload_alike_and_stable_uneven :
    run fullHost (Octets.ofString "--list") ["decode", "--list", "-"] =
        run fullHost [] ["decode", "--list", "--", "--list"] ∧
      (run fullHost [] ["decode", "--list", uneven]).exitCode = 0 ∧
      run fullHost (Octets.ofString (run fullHost [] ["decode", "--list", uneven]).stdout)
        ["decode", "--list"] = run fullHost [] ["decode", "--list", uneven] := by
  have hflags : IsFlags ["--list"] true .json := payload_alike_and_stable.1 true none
  have hexit : (run fullHost [] ["decode", "--list", uneven]).exitCode = 0 := by decide +kernel
  exact ⟨(payload_alike_and_stable.2 hflags (.behind (some "--list")) (.plain rfl) .hyphen
      fullHost fullHost []).1 _ rfl (by decide), hexit,
    (payload_alike_and_stable.2 hflags (.plain rfl) .nothing .nothing
      fullHost fullHost []).2 rfl hexit⟩

end Extraction.Command
