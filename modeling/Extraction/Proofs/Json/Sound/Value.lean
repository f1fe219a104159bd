import Extraction.Proofs.Json.Reading
import Extraction.Proofs.Json.Sound.Token

/-!
# What is read is a phrase

Whenever reading succeeds, what has been taken in is a phrase of the grammar that
keeps to the limits: a value on its own, or a container whose entries are
phrases in turn. So only documents are read, and only those that keep to the
limits.
-/

namespace Extraction.Json

section Values

variable {item : Reader Value} {depth : Nat} {v : Value} {s rest : List Char}

theorem keyword_ok {letters : List Char} {result : Value}
    (h : keyword v letters s = .ok (result, rest)) : s = letters ++ rest := by
  fun_induction keyword v letters s with
  | case1 => cases h; rfl
  | case2 => cases h
  | case3 _ _ _ ih => rw [ih h, List.cons_append]
  | case4 => cases h

/-- A numeral ends in front of white space if it does behind it. -/
theorem endsNumeral_of_skipSpace (h : EndsNumeral (skipSpace s)) : EndsNumeral s := by
  cases s with
  | nil => exact h
  | cons c s =>
      cases hc : isSpace c with
      | true =>
          obtain ⟨hdigit, hpoint, hmark⟩ := not_numeral_of_isSpace hc
          exact endsNumeral_cons hdigit hpoint hmark
      | false => rwa [skipSpace_cons hc] at h

theorem endsNumeral_close (b : Gate.Bracket) (s : List Char) : EndsNumeral (closing b :: s) := by
  cases b
  · exact endsNumeral_cons (by decide) (by decide) (by decide)
  · exact endsNumeral_cons (by decide) (by decide) (by decide)

/-- What is read as a value without brackets is a phrase that keeps to the limits, provided that a
number in it is not cut off. -/
theorem scalar_ok (h : scalar s = .ok (v, rest)) :
    ∃ phrase : Phrase Char .value, s = phrase.written ++ rest ∧
      (EndsNumeral rest → phrase.Fits depth) := by
  cases s with
  | nil => cases h
  | cons c tail =>
      simp only [scalar] at h
      split at h
      next hc =>
        obtain ⟨_, hread, heq⟩ := ok_of_map h
        cases heq
        obtain ⟨body, rfl, hbody⟩ := unquote_ok hread
        exact ⟨.string body, by rw [hc]; rfl, fun _ => fits_string hbody⟩
      split at h
      next hc => exact ⟨.keyword .null, by rw [hc, keyword_ok h]; rfl, fun _ => fits_keyword _⟩
      split at h
      next hc =>
        exact ⟨.keyword (.bool true), by rw [hc, keyword_ok h]; rfl, fun _ => fits_keyword _⟩
      split at h
      next hc =>
        exact ⟨.keyword (.bool false), by rw [hc, keyword_ok h]; rfl, fun _ => fits_keyword _⟩
      split at h
      next hc =>
        obtain ⟨_, hread, heq⟩ := ok_of_map h
        cases heq
        obtain ⟨n, hsign, hn, hrange⟩ := exists_literal_of_unsigned hread
        exact ⟨.number n, by rw [hc, hn]; simp [Phrase.written, Literal.spelled, hsign],
          fun hrest => fits_number (hrange hrest)⟩
      split at h
      next =>
        obtain ⟨_, hread, heq⟩ := ok_of_map h
        cases heq
        obtain ⟨n, hsign, hn, hrange⟩ := exists_literal_of_unsigned hread
        exact ⟨.number n, by rw [hn]; simp [Phrase.written, Literal.spelled, hsign],
          fun hrest => fits_number (hrange hrest)⟩
      next => cases h

/-- What an item is read from is white space and a phrase, which keeps to the limits. -/
def TakesPhrases (depth : Nat) (item : Reader Value) : Prop :=
  ∀ {s v rest}, item.run s = .ok (v, rest) →
    ∃ (w : List Blank) (phrase : Phrase Char .value), s = writeSpace w ++ (phrase.written ++ rest) ∧
      (EndsNumeral rest → phrase.Fits depth)

/-- White space may stand in front of elements that are read, as it belongs to the first one. -/
theorem elements_ok (hitem : TakesPhrases depth item) {read items : List Value}
    (h : elements item read s = .ok (items, rest)) (w : List Blank) :
    ∃ phrase : Phrase Char (.entries .array),
      writeSpace w ++ s = phrase.written ++ ']' :: rest ∧ phrase.Fits depth := by
  fun_induction elements item read s generalizing w with
  | case1 => cases h
  | case2 => cases h
  | case3 read s value left hrun after hspace =>
      cases h
      obtain ⟨before, phrase, rfl, hphrase⟩ := hitem hrun
      obtain ⟨behind, hbehind⟩ := exists_writeSpace left
      have hends : EndsNumeral left :=
        endsNumeral_of_skipSpace (hspace ▸ endsNumeral_close .array _)
      refine ⟨.last (.element (w ++ before) phrase behind), ?_,
        fits_last (fits_element (hphrase hends) _ _)⟩
      rw [hbehind, hspace]
      simp [Phrase.written, writeSpace_append]
  | case4 => cases h
  | case5 read s value left hrun after _ hspace _ ih =>
      obtain ⟨before, phrase, rfl, hphrase⟩ := hitem hrun
      obtain ⟨behind, hbehind⟩ := exists_writeSpace left
      have hends : EndsNumeral left := endsNumeral_of_skipSpace (hspace ▸ endsNumeral_comma _)
      -- What follows the comma keeps its white space, which belongs to the next element.
      obtain ⟨others, hothers, hfits⟩ := ih h []
      refine ⟨.more (.element (w ++ before) phrase behind) others, ?_,
        fits_more (fits_element (hphrase hends) _ _) hfits⟩
      rw [hbehind, hspace]
      simpa [Phrase.written, writeSpace_append, writeSpace_nil] using hothers
  | case6 => cases h

theorem list_ok (hitem : TakesPhrases depth item) {items : List Value}
    (h : list item s = .ok (items, rest)) :
    ∃ phrase : Phrase Char .value, '[' :: s = phrase.written ++ rest ∧
      phrase.Fits (depth + 1) := by
  obtain ⟨w, hw⟩ := exists_writeSpace s
  unfold list at h
  split at h
  next => cases h
  next c tail hspace =>
    rw [hspace] at hw
    split at h
    next hc =>
      cases h
      exact ⟨.empty .array w, by rw [hw, hc]; simp [Phrase.written, opening, closing],
        fits_empty .array w⟩
    next =>
      obtain ⟨entries, hentries, hfits⟩ := elements_ok hitem h w
      refine ⟨.container .array entries, ?_, fits_container hfits⟩
      rw [hw, hentries]
      simp [Phrase.written, opening, closing]

theorem colon_ok (h : colon s = .ok rest) : ∃ w : List Blank, s = writeSpace w ++ ':' :: rest := by
  obtain ⟨w, hw⟩ := exists_writeSpace s
  unfold colon at h
  split at h
  next => cases h
  next c tail hspace =>
    rw [hspace] at hw
    split at h
    next hc =>
      cases h
      exact ⟨w, by rw [hw, hc]⟩
    next => cases h

theorem member_ok (hitem : TakesPhrases depth item) {entry : String × Value}
    (h : member item s = .ok (entry, rest)) :
    ∃ (key : Body Char) (beforeColon afterColon : List Blank) (value : Phrase Char .value),
      s = '"' :: (closeBody key ++ (writeSpace beforeColon ++
        (':' :: (writeSpace afterColon ++ (value.written ++ rest))))) ∧
      Paired key ∧ (EndsNumeral rest → value.Fits depth) := by
  cases s with
  | nil => cases h
  | cons c tail =>
      simp only [member] at h
      split at h
      next hc =>
        obtain ⟨⟨text, afterKey⟩, hkey, h⟩ := ok_of_bind h
        obtain ⟨afterColon, hcolon, h⟩ := ok_of_bind h
        obtain ⟨⟨v, left⟩, hvalue, h⟩ := ok_of_bind h
        cases h
        obtain ⟨key, rfl, hpaired⟩ := unquote_ok hkey
        obtain ⟨w, rfl⟩ := colon_ok hcolon
        obtain ⟨w', value, rfl, hfits⟩ := hitem hvalue
        exact ⟨key, w, w', value, by rw [hc], hpaired, hfits⟩
      next => cases h

theorem members_ok (hitem : TakesPhrases depth item) {read entries : List (String × Value)}
    (h : members item read s = .ok (entries, rest)) (w : List Blank) :
    ∃ phrase : Phrase Char (.entries .object),
      writeSpace w ++ s = phrase.written ++ '\x7d' :: rest ∧ phrase.Fits depth := by
  fun_induction members item read s generalizing w with
  | case1 => cases h
  | case2 => cases h
  | case3 read s entry left hrun after hspace =>
      cases h
      obtain ⟨key, beforeColon, afterColon, value, rfl, hpaired, hvalue⟩ := member_ok hitem hrun
      obtain ⟨behind, hbehind⟩ := exists_writeSpace left
      have hends : EndsNumeral left :=
        endsNumeral_of_skipSpace (hspace ▸ endsNumeral_close .object _)
      refine ⟨.last (.member w key beforeColon afterColon value behind), ?_,
        fits_last (fits_member hpaired (hvalue hends) _ _ _ _)⟩
      rw [hbehind, hspace]
      simp [Phrase.written]
  | case4 => cases h
  | case5 read s entry left hrun after hspace _ _ ih =>
      obtain ⟨key, beforeColon, afterColon, value, rfl, hpaired, hvalue⟩ := member_ok hitem hrun
      obtain ⟨behind, hbehind⟩ := exists_writeSpace left
      have hends : EndsNumeral left := endsNumeral_of_skipSpace (hspace ▸ endsNumeral_comma _)
      -- The next member is read behind the white space, which the phrase takes in again.
      obtain ⟨w', hw'⟩ := exists_writeSpace after
      obtain ⟨others, hothers, hfits⟩ := ih h w'
      refine ⟨.more (.member w key beforeColon afterColon value behind) others, ?_,
        fits_more (fits_member hpaired (hvalue hends) _ _ _ _) hfits⟩
      rw [hbehind, hspace, hw']
      simpa [Phrase.written] using hothers
  | case6 => cases h

theorem object_ok (hitem : TakesPhrases depth item) {entries : List (String × Value)}
    (h : object item s = .ok (entries, rest)) :
    ∃ phrase : Phrase Char .value, '\x7b' :: s = phrase.written ++ rest ∧
      phrase.Fits (depth + 1) := by
  obtain ⟨w, hw⟩ := exists_writeSpace s
  unfold object at h
  split at h
  next => cases h
  next c tail hspace =>
    rw [hspace] at hw
    split at h
    next hc =>
      cases h
      exact ⟨.empty .object w, by rw [hw, hc]; simp [Phrase.written, opening, closing],
        fits_empty .object w⟩
    next =>
      obtain ⟨entries, hentries, hfits⟩ := members_ok hitem h w
      refine ⟨.container .object entries, ?_, fits_container hfits⟩
      rw [hw, hentries]
      simp [Phrase.written, opening, closing]

/-- A container is read where the limit leaves room for it, and its items one level further in. -/
theorem valueFrom_ok {item : Option (Reader Value)}
    (hitem : ∀ reader ∈ item, ∃ d, depth = d + 1 ∧ TakesPhrases d reader)
    (h : valueFrom item s = .ok (v, rest)) :
    ∃ phrase : Phrase Char .value, s = phrase.written ++ rest ∧
      (EndsNumeral rest → phrase.Fits depth) := by
  cases s with
  | nil => cases h
  | cons c tail =>
      simp only [valueFrom] at h
      split at h
      next hbracket =>
        cases item with
        | none => cases h
        | some reader =>
            obtain ⟨d, rfl, hreader⟩ := hitem reader rfl
            simp only at h
            split at h
            next hc =>
              obtain ⟨_, hread, heq⟩ := ok_of_map h
              cases heq
              obtain ⟨phrase, hphrase, hfits⟩ := list_ok hreader hread
              exact ⟨phrase, by rw [hc, hphrase], fun _ => hfits⟩
            next hc =>
              obtain ⟨_, hread, heq⟩ := ok_of_map h
              cases heq
              obtain ⟨phrase, hphrase, hfits⟩ := object_ok hreader hread
              exact ⟨phrase, by rw [hbracket.resolve_left hc, hphrase], fun _ => hfits⟩
      next => exact scalar_ok h

theorem takesPhrases_valueWith {item : Option (Reader Value)}
    (hitem : ∀ reader ∈ item, ∃ d, depth = d + 1 ∧ TakesPhrases d reader) :
    TakesPhrases depth (valueWith item) := by
  intro s v rest h
  obtain ⟨w, hw⟩ := exists_writeSpace s
  obtain ⟨phrase, hphrase, hfits⟩ := valueFrom_ok hitem h
  exact ⟨w, phrase, by rw [← hphrase]; exact hw, hfits⟩

/-- Whatever depth is allowed, only phrases are read, and only those that keep to it. -/
theorem takesPhrases_value (depth : Nat) : TakesPhrases depth (value depth) := by
  induction depth with
  | zero => exact takesPhrases_valueWith (by simp)
  | succ depth ih =>
      refine takesPhrases_valueWith fun reader hreader => ?_
      cases hreader
      exact ⟨depth, rfl, ih⟩

/-- What is read up to its end, white space apart, is a document that keeps to the limits. -/
theorem exists_fitting_of_run {left : List Char} (h : (value depth).run s = .ok (v, left))
    (hend : skipSpace left = []) :
    ∃ d : Document Char, d.written = s ∧ d.value.Fits depth := by
  obtain ⟨before, phrase, htext, hfits⟩ := takesPhrases_value depth h
  obtain ⟨after, hafter⟩ := exists_writeSpace left
  refine ⟨⟨before, phrase, after⟩, ?_, hfits (endsNumeral_of_skipSpace ?_)⟩
  · rw [hend, List.append_nil] at hafter
    rw [htext, Document.written, hafter]
  · rw [hend]
    exact endsNumeral_nil

/-- Only documents that keep to the limits are read. -/
theorem exists_fitting_of_parse {t : String} (h : parse t = .ok v) :
    ∃ d : Document Char, d.written = t.toList ∧ d.value.Fits deepest := by
  obtain ⟨⟨_, left⟩, hvalue, hend⟩ := ok_of_bind (ok_of_mapError h)
  simp only at hend
  split at hend
  next hspace => exact exists_fitting_of_run hvalue hspace
  next => cases hend

theorem exists_document_of_parse {t : String} (h : parse t = .ok v) :
    ∃ d : Document Char, d.written = t.toList := by
  obtain ⟨d, hd, _⟩ := exists_fitting_of_parse h
  exact ⟨d, hd⟩

end Values

end Extraction.Json
