import Mathlib.Data.List.TakeWhile
import SlowRequest.Json.Value
import SlowRequest.Proofs.Json.Splitting
namespace SlowRequest.Json

/-! ## Doubles -/

theorem isBlank_of_isDigit {c : Char} (h : c.isDigit) : isBlank c = false := by
  have hrange : 48 ≤ c.toNat ∧ c.toNat ≤ 57 := by
    simpa [Char.isDigit, UInt32.le_iff_toNat_le] using h
  rw [isBlank, Bool.eq_false_iff]
  intro hblank
  simp only [Bool.or_eq_true, beq_iff_eq] at hblank
  rcases hblank with ((rfl | rfl) | rfl) | rfl <;> simp at hrange

private theorem isBlank_of_mem_digitsOf {n : Nat} {c : Char} (h : c ∈ Decimal.digitsOf n) :
    isBlank c = false := by
  have hdigits : Decimal.digitsOf n = Nat.toDigits 10 n := by
    simp [Decimal.digitsOf, toString, Nat.repr]
  rw [hdigits] at h
  exact isBlank_of_isDigit (Nat.isDigit_of_mem_toDigits (by decide) (by decide) h)

private theorem isBlank_of_mem_positional {whole : List Char} {d : Decimal} {c : Char}
    (hwhole : ∀ c ∈ whole, isBlank c = false) (h : c ∈ d.positional whole) :
    isBlank c = false := by
  have hzeros : ∀ n, c ∈ Decimal.zeros n → isBlank c = false := by
    intro n hc
    rw [(List.mem_replicate.mp hc).2]
    rfl
  rw [Decimal.positional] at h
  split at h
  · simp only [List.mem_append] at h
    rcases h with (h | h) | h
    · exact isBlank_of_mem_digitsOf h
    · exact hzeros _ h
    · exact hwhole c h
  · dsimp only at h
    split at h
    · rcases List.mem_append.mp h with h | h
      · exact isBlank_of_mem_digitsOf (List.mem_of_mem_take h)
      · rcases List.mem_cons.mp h with rfl | h
        · rfl
        · exact isBlank_of_mem_digitsOf (List.mem_of_mem_drop h)
    · simp only [List.mem_cons, List.mem_append] at h
      rcases h with rfl | rfl | h | h
      · rfl
      · rfl
      · exact hzeros _ h
      · exact isBlank_of_mem_digitsOf h

private theorem isBlank_of_mem_scientific {d : Decimal} {c : Char} (h : c ∈ d.scientific) :
    isBlank c = false := by
  rw [Decimal.scientific] at h
  split at h
  · cases h
  · rename_i first rest hdigits
    have hfirst : ∀ c ∈ first :: rest, isBlank c = false := by
      rw [← hdigits]
      exact fun c => isBlank_of_mem_digitsOf
    simp only [List.mem_cons, List.mem_append] at h
    rcases h with rfl | h | rfl | rfl | h
    · exact hfirst c List.mem_cons_self
    · split at h
      · cases h
      · rcases List.mem_cons.mp h with rfl | h
        · rfl
        · exact hfirst c (List.mem_cons_of_mem _ h)
    · rfl
    · split <;> rfl
    · exact isBlank_of_mem_digitsOf h

theorem isBlank_of_mem_writeFloat {x : Float} {c : Char} (h : c ∈ writeFloat x) :
    isBlank c = false := by
  rw [writeFloat] at h
  split at h
  · have hnull : ∀ c ∈ "null".toList, isBlank c = false := by simp [isBlank]
    exact hnull c h
  · have hmagnitude : ∀ {d : Decimal} {power : Int} {c : Char},
        c ∈ (if -5 ≤ power ∧ power < 16 then d.positional ['.', '0'] else d.scientific) →
          isBlank c = false := by
      intro d power c hc
      split at hc
      · exact isBlank_of_mem_positional (by simp [isBlank]) hc
      · exact isBlank_of_mem_scientific hc
    rw [Decimal.json, Decimal.signed] at h
    split at h
    · rcases List.mem_cons.mp h with rfl | h
      · rfl
      · exact hmagnitude h
    · exact hmagnitude h

theorem reads_float {x : Float} (h : parse float (String.ofList (writeFloat x)) = .ok x) :
    Reads float x (writeFloat x) := by
  rw [parse, String.toList_ofList] at h
  cases hread : float (writeFloat x) with
  | error e =>
    rw [hread] at h
    cases h
  | ok found =>
    obtain ⟨y, left⟩ := found
    obtain ⟨hsuffix, hbefore⟩ := splits_float _ y left hread
    simp only [hread, bind, Except.bind] at h
    split at h
    · rename_i hempty
      cases h
      have hleft : left = [] := by
        cases left with
        | nil => rfl
        | cons c left =>
          have hc := isBlank_of_mem_writeFloat (hsuffix.subset List.mem_cons_self)
          rw [skipBlank_of_head hc] at hempty
          cases hempty
      rw [hleft] at hbefore
      exact hbefore
    · cases h

/-! ## Whole numbers -/

theorem render_natural (n : Nat) : (Value.natural n).render = Nat.toDigits 10 n := by
  rw [Value.natural, Value.render]
  simp [toString, Int.repr, Nat.repr]

def decimalDigits (n : Nat) : List Nat := (Nat.toDigits 10 n).map fun c => c.toNat - '0'.toNat

private theorem isDigit_of_mem_toDigits {n : Nat} {c : Char} (h : c ∈ Nat.toDigits 10 n) :
    c.isDigit :=
  Nat.isDigit_of_mem_toDigits (by decide) (by decide) h

private theorem digits_toDigits (n : Nat) : digits (Nat.toDigits 10 n) = (decimalDigits n, []) := by
  have htake : (Nat.toDigits 10 n).takeWhile Char.isDigit = Nat.toDigits 10 n :=
    List.takeWhile_eq_self_iff.mpr fun c => isDigit_of_mem_toDigits
  have hdrop : (Nat.toDigits 10 n).dropWhile Char.isDigit = [] :=
    List.dropWhile_eq_nil_iff.mpr fun c => isDigit_of_mem_toDigits
  rw [digits, htake, hdrop, decimalDigits]

private theorem foldl_decimalDigits (n : Nat) :
    (decimalDigits n).foldl (fun value d => value * 10 + d) 0 = n := by
  have hread : Nat.ofDigitChars 10 (Nat.toDigits 10 n) 0 = n :=
    Nat.ofDigitChars_toDigits (by decide) (by decide)
  rw [Nat.ofDigitChars_eq_foldl] at hread
  rw [decimalDigits, List.foldl_map]
  simpa only [Nat.mul_comm] using hread

private theorem le_foldl_digits (ds : List Nat) (value : Nat) :
    value ≤ ds.foldl (fun value d => value * 10 + d) value := by
  induction ds generalizing value with
  | nil => exact Nat.le_refl _
  | cons d ds ih =>
    have hstep : value ≤ value * 10 + d := by omega
    exact Nat.le_trans hstep (ih _)

private theorem leadingDigits_of_fits (ds : List Nat) (value : Nat)
    (h : ds.foldl (fun value d => value * 10 + d) value < Word.limit64) :
    ds.foldl (fun (value, left) d =>
      if left = 0 ∧ value * 10 + d < Word.limit64 then (value * 10 + d, 0)
      else (value, left + 1)) (value, 0) = (ds.foldl (fun value d => value * 10 + d) value, 0) := by
  induction ds generalizing value with
  | nil => rfl
  | cons d ds ih =>
    rw [List.foldl_cons] at h
    have hfits : value * 10 + d < Word.limit64 := Nat.lt_of_le_of_lt (le_foldl_digits ds _) h
    have hstep : (if (0 : Nat) = 0 ∧ value * 10 + d < Word.limit64 then (value * 10 + d, 0)
        else (value, 1)) = (value * 10 + d, 0) := if_pos ⟨rfl, hfits⟩
    rw [List.foldl_cons, List.foldl_cons, ← ih _ h]
    exact congrArg (fun start => List.foldl _ start ds) hstep

theorem toDigits_head (n : Nat) : Nat.toDigits 10 n = ['0'] ∨
    ∃ c s, Nat.toDigits 10 n = c :: s ∧ c ≠ '0' ∧ c.isDigit := by
  induction n using Nat.strongRecOn with
  | ind n ih =>
    by_cases hsmall : n < 10
    · rw [Nat.toDigits_of_lt_base hsmall]
      by_cases hzero : n = 0
      · exact .inl (by rw [hzero]; rfl)
      · refine .inr ⟨_, [], rfl, ?_, ?_⟩
        · intro h
          exact hzero (Nat.digitChar_eq_zero.mp h)
        · exact isDigit_of_mem_toDigits (n := n) (by rw [Nat.toDigits_of_lt_base hsmall]; simp)
    · right
      have hsplit : Nat.toDigits 10 n =
          Nat.toDigits 10 (n / 10) ++ [(n % 10).digitChar] := by
        rw [Nat.toDigits_eq_if (by decide), if_neg hsmall]
      rcases ih (n / 10) (by omega) with hzero | ⟨c, s, hcons, hc⟩
      · have hvalue := foldl_decimalDigits (n / 10)
        rw [decimalDigits, hzero] at hvalue
        simp at hvalue
        omega
      · exact ⟨c, s ++ [(n % 10).digitChar], by rw [hsplit, hcons, List.cons_append], hc⟩

private theorem wholeDigits_toDigits (atEnd : Fault) (n : Nat) :
    wholeDigits atEnd (Nat.toDigits 10 n) = .ok (decimalDigits n, []) := by
  rcases toDigits_head n with hzero | ⟨c, s, hcons, hc, hdigit⟩
  · rw [decimalDigits, hzero]
    rfl
  · have hdigits := digits_toDigits n
    rw [hcons] at hdigits ⊢
    rw [wholeDigits_of_ne atEnd hc, if_pos hdigit, hdigits]

private theorem number_toDigits {n : Nat} (h : n < Word.limit64) :
    number (Nat.toDigits 10 n) = .ok (.natural n, []) := by
  obtain ⟨c, s, hcons, hdigit⟩ : ∃ c s, Nat.toDigits 10 n = c :: s ∧ c.isDigit := by
    rcases toDigits_head n with hzero | ⟨c, s, hcons, -, hdigit⟩
    · exact ⟨'0', [], hzero, rfl⟩
    · exact ⟨c, s, hcons, hdigit⟩
  have hskip : skipBlank (Nat.toDigits 10 n) = c :: s := by
    rw [hcons, skipBlank_of_head (isBlank_of_isDigit hdigit)]
  have hstart : startsNumeral c = true := by rw [startsNumeral, hdigit, Bool.or_true]
  have hminus : c ≠ '-' := by
    rintro rfl
    cases hdigit
  have hnumeral : numeral .truncated (c :: s) = .ok (⟨false, decimalDigits n, [], none⟩, []) := by
    rw [numeral_of_ne _ hminus, unsigned, ← hcons, wholeDigits_toDigits]
    rfl
  have hleading : leadingDigits (decimalDigits n) = (n, 0) := by
    have hfits := foldl_decimalDigits n
    rw [leadingDigits, leadingDigits_of_fits _ 0 (by rwa [hfits]), hfits]
  rw [number, hskip]
  simp only [if_pos hstart, numberOf, hnumeral, bind, Except.bind, Numeral.toNumber, hleading]
  rfl

theorem reads_natural {n limit : Nat} (h : n < limit) (hlimit : limit ≤ Word.limit64) :
    Reads (natural limit) n (Value.natural n).render := by
  intro rest hrest
  have hnumber := (splits_number _ _ _ (number_toDigits (Nat.lt_of_lt_of_le h hlimit))).2 rest hrest
  rw [render_natural, natural, hnumber]
  simp only [bind, Except.bind, if_pos h]
  rfl

theorem reads_word64 (n : UInt64) : Reads word64 n (Value.natural n.toNat).render := by
  have hn : UInt64.ofNat n.toNat = n := UInt64.ofNat_toNat
  have h := (reads_natural n.toNat_lt (Nat.le_refl Word.limit64)).mapped UInt64.ofNat
  rwa [hn] at h

theorem reads_word32 (n : UInt32) : Reads word32 n (Value.natural n.toNat).render := by
  have hn : UInt32.ofNat n.toNat = n := UInt32.ofNat_toNat
  have hlimit : Word.limit32 ≤ Word.limit64 := by decide
  have h := (reads_natural n.toNat_lt hlimit).mapped UInt32.ofNat
  rwa [hn] at h

end SlowRequest.Json
