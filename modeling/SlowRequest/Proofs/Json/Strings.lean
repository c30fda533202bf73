import SlowRequest.Proofs.Json.Numerals
namespace SlowRequest.Json

private theorem hexUnit?_escaped :
    ∀ n < 32, hexUnit? '0' '0' (hexDigit (n / 16)) (hexDigit (n % 16)) = some n := by
  decide

private theorem quoted_plain {c : Char} (hquote : c ≠ '"') (hslash : c ≠ '\\') (hspace : ¬ c < ' ')
    (strict : Bool) (read s : List Char) :
    quoted strict read (c :: s) = quoted strict (c :: read) s := by
  rw [quoted.eq_def]
  split
  case h_7 heq =>
    cases heq
    rw [if_neg hspace]
  all_goals simp_all

private theorem quoted_simple {c d : Char} (h : simpleEscape? d = some c) (hd : d ≠ 'u')
    (strict : Bool) (read s : List Char) :
    quoted strict read ('\\' :: d :: s) = quoted strict (c :: read) s := by
  rw [quoted.eq_def]
  split
  case h_6 heq =>
    cases heq
    rw [h]
  case h_7 hplain heq =>
    injection heq with hslash htail
    exact (hplain d s hslash.symm htail.symm).elim
  all_goals simp_all

private theorem quoted_control {c : Char} (h : c < ' ') (read s : List Char) :
    quoted true read ('\\' :: 'u' :: '0' :: '0' :: hexDigit (c.toNat / 16) ::
      hexDigit (c.toNat % 16) :: s) = quoted true (c :: read) s := by
  have hc : c.toNat < 32 := h
  have hleading : isLeadingUnit c.toNat = false := by
    simp [isLeadingUnit]
    omega
  have htrailing : isTrailingUnit c.toNat = false := by
    simp [isTrailingUnit]
    omega
  rw [quoted]
  simp [hexUnit?_escaped c.toNat hc, hleading, htrailing]

private theorem quoted_escapeChar (c : Char) (read s : List Char) :
    quoted true read (escapeChar c ++ s) = quoted true (c :: read) s := by
  unfold escapeChar
  split
  · exact quoted_simple rfl (by decide) true read s
  · exact quoted_simple rfl (by decide) true read s
  · exact quoted_simple rfl (by decide) true read s
  · exact quoted_simple rfl (by decide) true read s
  · exact quoted_simple rfl (by decide) true read s
  · exact quoted_simple rfl (by decide) true read s
  · exact quoted_simple rfl (by decide) true read s
  · rename_i hquote hslash _ _ _ _ _
    split
    · rename_i hcontrol
      exact quoted_control hcontrol read s
    · rename_i hspace
      exact quoted_plain hquote hslash hspace true read s

private theorem quoted_escaped (cs read rest : List Char) :
    quoted true read (cs.flatMap escapeChar ++ '"' :: rest) =
      .ok (String.ofList (read.reverse ++ cs), rest) := by
  induction cs generalizing read with
  | nil => rw [List.flatMap_nil, List.nil_append, quoted, List.append_nil]
  | cons c cs ih =>
    rw [List.flatMap_cons, List.append_assoc, quoted_escapeChar, ih, List.reverse_cons,
      List.append_assoc]
    rfl

theorem quoted_writeString (s : String) (rest : List Char) :
    quoted true [] ((s.toList.flatMap escapeChar ++ ['"']) ++ rest) = .ok (s, rest) := by
  rw [List.append_assoc, List.singleton_append, quoted_escaped, List.reverse_nil, List.nil_append,
    String.ofList_toList]

theorem reads_string (s : String) : Reads string s (Value.string s).render := by
  intro rest _
  rw [Value.render, writeString, List.cons_append, string, skipBlank_of_head (by decide)]
  exact quoted_writeString s rest

end SlowRequest.Json
