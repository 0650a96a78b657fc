import GoldenFixtures.Text.Lowercase

/-!
# Lower case and ASCII letters

Lower case forgets the case of ASCII letters: texts that are equal but for it
have one lower-case form.  For a word of small letters other than `k` it forgets
nothing else: no letter outside ASCII has one of these as its lower-case form
(`lowercase_eq_iff_toLower_eq`).
-/

namespace GoldenFixtures.Text

/-- A capital letter of ASCII has the lower-case form of its small letter. -/
theorem lowerChar_toLower_capital :
    ∀ n : Fin 26, lowerChar (Char.ofNat (65 + n)).toLower = lowerChar (Char.ofNat (65 + n)) := by
  decide +kernel

theorem lowerChar_toLower (c : Char) : lowerChar c.toLower = lowerChar c := by
  by_cases hcapital : 'A'.val ≤ c.val ∧ c.val ≤ 'Z'.val
  · have hbounds : 65 ≤ c.toNat ∧ c.toNat ≤ 90 := hcapital
    have hletter : Char.ofNat (65 + (c.toNat - 65)) = c := by
      rw [Nat.add_sub_cancel' hbounds.1, Char.ofNat_toNat]
    have h := lowerChar_toLower_capital ⟨c.toNat - 65, by omega⟩
    rw [hletter] at h
    exact h
  · have hsame : c.toLower = c := dif_neg hcapital
    rw [hsame]

theorem toList_toLower (text : String) : text.toLower.toList = text.toList.map Char.toLower :=
  String.toList_map

theorem lowercase_eq_of_toLower_eq {text other : String} (h : text.toLower = other.toLower) :
    lowercase text = lowercase other := by
  have hchars : text.toList.map Char.toLower = other.toList.map Char.toLower := by
    rw [← toList_toLower, ← toList_toLower, h]
  have hforget (chars : List Char) :
      (chars.map Char.toLower).flatMap lowerChar = chars.flatMap lowerChar := by
    rw [List.flatMap_map]
    simp only [lowerChar_toLower]
  unfold lowercase
  rw [← hforget text.toList, hchars, hforget]

/-! ## Small letters -/

/-- A small letter of ASCII that is the lower-case form of its capital and of no
other character.  The Kelvin sign has that of `k`. -/
def IsOwnLetter (c : Char) : Prop := 97 ≤ c.toNat ∧ c.toNat ≤ 122 ∧ c.toNat ≠ 107

/-- The characters whose lower-case forms are such letters lie 32 before them. -/
theorem shift_of_ownLetter :
    ∀ run ∈ caseRuns, ∀ n : Fin 26, n ≠ 10 → (run.first : Int) ≤ 97 + n - run.shift →
      (97 + n - run.shift : Int) ≤ run.last → run.shift = 32 := by
  decide +kernel

theorem lowerChar_capital :
    ∀ n : Fin 26, lowerChar (Char.ofNat (65 + n)) = [(Char.ofNat (65 + n)).toLower] := by
  decide +kernel

theorem toNat_ofNat_of_ne_zero {n : Nat} (h : (Char.ofNat n).toNat ≠ 0) :
    (Char.ofNat n).toNat = n := by
  by_cases hvalid : n.isValidChar
  · have hchar : Char.ofNat n = Char.ofNatAux n hvalid := dif_pos hvalid
    rw [hchar]
    rfl
  · have hchar : Char.ofNat n = '\x00' := dif_neg hvalid
    rw [hchar] at h
    exact absurd rfl h

theorem toLower_of_ownLetter {c : Char} (h : IsOwnLetter c) : c.toLower = c := by
  apply dif_neg
  rintro ⟨-, hto⟩
  have hcapital : c.toNat ≤ 90 := hto
  have hsmall := h.1
  omega

/-- Among the characters with another lower-case form, only the capitals of
ASCII have such a letter. -/
theorem capital_of_ownLetter {c : Char} {run : CaseRun} (hrun : run ∈ caseRuns)
    (hholds : run.holds c = true) (h : IsOwnLetter (Char.ofNat (c.toNat + run.shift).toNat)) :
    65 ≤ c.toNat ∧ c.toNat ≤ 90 := by
  have hzero : (Char.ofNat (c.toNat + run.shift).toNat).toNat ≠ 0 := by
    have hfrom := h.1
    omega
  unfold IsOwnLetter at h
  rw [toNat_ofNat_of_ne_zero hzero] at h
  obtain ⟨hfrom, hto, hk⟩ := h
  simp only [CaseRun.holds, Bool.and_eq_true, decide_eq_true_eq] at hholds
  obtain ⟨⟨hfirst, hlast⟩, -⟩ := hholds
  have hshift : run.shift = 32 := by
    apply shift_of_ownLetter run hrun ⟨(c.toNat + run.shift).toNat - 97, by omega⟩
    · intro hten
      have hvalue : (c.toNat + run.shift).toNat - 97 = 10 := congrArg Fin.val hten
      omega
    · simp only
      omega
    · simp only
      omega
  omega

theorem lowerChar_of_ownLetter {c : Char} (h : ∀ letter ∈ lowerChar c, IsOwnLetter letter) :
    lowerChar c = [c.toLower] := by
  by_cases hdotted : c = '\u0130'
  · rw [lowerChar, if_pos hdotted] at h
    have hdot : IsOwnLetter '\u0307' := h _ (by simp)
    exact absurd hdot (by unfold IsOwnLetter; decide)
  · cases hfind : caseRuns.find? fun run => run.holds c with
    | none =>
      have hlower : lowerChar c = [c] := by rw [lowerChar, if_neg hdotted, hfind]
      have hletter : IsOwnLetter c := h c (by rw [hlower]; simp)
      rw [hlower, toLower_of_ownLetter hletter]
    | some run =>
      have hlower : lowerChar c = [Char.ofNat (c.toNat + run.shift).toNat] := by
        rw [lowerChar, if_neg hdotted, hfind]
      have hholds := List.find?_some hfind
      obtain ⟨hfrom, hto⟩ : 65 ≤ c.toNat ∧ c.toNat ≤ 90 :=
        capital_of_ownLetter (List.mem_of_find?_eq_some hfind) hholds (h _ (by rw [hlower]; simp))
      have hcapital := lowerChar_capital ⟨c.toNat - 65, by omega⟩
      rw [Nat.add_sub_cancel' hfrom, Char.ofNat_toNat] at hcapital
      exact hcapital

theorem flatMap_lowerChar_of_ownLetters {chars : List Char}
    (h : ∀ letter ∈ chars.flatMap lowerChar, IsOwnLetter letter) :
    chars.flatMap lowerChar = chars.map Char.toLower := by
  induction chars with
  | nil => rfl
  | cons c chars ih =>
    rw [List.flatMap_cons] at h ⊢
    rw [List.forall_mem_append] at h
    rw [lowerChar_of_ownLetter h.1, ih h.2]
    rfl

/-- A word of such letters is the lower-case form of its spellings in ASCII
letters, and of no other text. -/
theorem lowercase_eq_iff_toLower_eq {text word : String}
    (hletters : ∀ c ∈ word.toList, IsOwnLetter c) (hlower : lowercase word = word) :
    lowercase text = word ↔ text.toLower = word := by
  constructor
  · intro h
    have hchars : text.toList.flatMap lowerChar = word.toList := by
      rw [← h, lowercase, String.toList_ofList]
    rw [← hchars] at hletters
    rw [← String.toList_inj, toList_toLower, ← hchars, flatMap_lowerChar_of_ownLetters hletters]
  · intro h
    have hsmall : word.toLower = word := by
      rw [← String.toList_inj, toList_toLower]
      have hmap : word.toList.map Char.toLower = word.toList.map id :=
        List.map_congr_left fun c hc => toLower_of_ownLetter (hletters c hc)
      rw [hmap, List.map_id]
    have hsame : text.toLower = word.toLower := h.trans hsmall.symm
    rw [lowercase_eq_of_toLower_eq hsame, hlower]

end GoldenFixtures.Text
