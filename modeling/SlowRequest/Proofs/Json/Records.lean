import Mathlib.Data.List.Nodup
import SlowRequest.Json.Record
import SlowRequest.Proofs.Json.Strings
/-!
# Lists and records read back

A list reads back if its elements do. A record that is written with its fields in their order reads
back if each field does: what the fields read, put into the starting record one after the other, is
what the whole reads.
-/
namespace SlowRequest.Json

variable {α R : Type}

/-- A text that starts like a value, and not like `null`. -/
def Opens (text : List Char) : Prop :=
  ∃ c s, text = c :: s ∧ isBlank c = false ∧ c ≠ ']' ∧ c ≠ 'n'

theorem opens_string (s : String) : Opens (Value.string s).render := by
  rw [Value.render, writeString]
  exact ⟨'"', _, rfl, by decide, by decide, by decide⟩

theorem opens_natural (n : Nat) : Opens (Value.natural n).render := by
  have hdigit : ∃ c s, Nat.toDigits 10 n = c :: s ∧ c.isDigit := by
    rcases toDigits_head n with hzero | ⟨c, s, hcons, -, hdigit⟩
    · exact ⟨'0', [], hzero, rfl⟩
    · exact ⟨c, s, hcons, hdigit⟩
  obtain ⟨c, s, hcons, hdigit⟩ := hdigit
  refine ⟨c, s, by rw [render_natural, hcons], isBlank_of_isDigit hdigit, ?_, ?_⟩
  · rintro rfl
    cases hdigit
  · rintro rfl
    cases hdigit

theorem opens_float {x : Float} (h : parse float (String.ofList (writeFloat x)) = .ok x) :
    Opens (writeFloat x) := by
  have hread := reads_float h [] delimited_nil
  rw [List.append_nil, float] at hread
  cases hnumber : number (writeFloat x) with
  | error e =>
    rw [hnumber] at hread
    cases hread
  | ok found =>
    obtain ⟨c, s, hskip, hstart⟩ := startsNumeral_of_number hnumber
    have hblank : ∀ c ∈ writeFloat x, isBlank c = false := fun c => isBlank_of_mem_writeFloat
    have hwhole : skipBlank (writeFloat x) = writeFloat x := by
      cases hw : writeFloat x with
      | nil => rfl
      | cons d t => exact skipBlank_of_head (hblank d (by rw [hw]; exact List.mem_cons_self)) t
    rw [hwhole] at hskip
    refine ⟨c, s, hskip, hblank c (by rw [hskip]; exact List.mem_cons_self), ?_, ?_⟩
    · rintro rfl
      cases hstart
    · rintro rfl
      cases hstart

theorem reads_nullable {read : Reader α} {write : α → Value} {x : Option α}
    (h : ∀ y, x = some y → Reads read y (write y).render ∧ Opens (write y).render) :
    Reads (nullable read) x (Value.ofOption write x).render := by
  intro rest hrest
  cases x with
  | none => rfl
  | some y =>
    obtain ⟨hread, c, s, htext, hblank, -, hnull⟩ := h y rfl
    have hy := hread rest hrest
    change nullable read ((write y).render ++ rest) = _
    rw [htext, List.cons_append] at hy ⊢
    rw [nullable, skipBlank_of_head hblank]
    split
    · rename_i heq
      cases heq
      exact absurd rfl hnull
    · rw [hy]
      rfl

/-! ## Lists -/

def laterElements (vs : List Value) : List Char := vs.flatMap fun v => ',' :: v.render

private theorem renderElements_cons (v : Value) (vs : List Value) :
    Value.renderElements (v :: vs) = v.render ++ laterElements vs := by
  induction vs generalizing v with
  | nil => rw [Value.renderElements, laterElements, List.flatMap_nil, List.append_nil]
  | cons w vs ih =>
    rw [Value.renderElements, ih, laterElements, laterElements, List.flatMap_cons]
    rfl

private theorem laterElements_cons (v : Value) (vs : List Value) (s : List Char) :
    laterElements (v :: vs) ++ s = ',' :: (v.render ++ (laterElements vs ++ s)) := by
  simp [laterElements]

private theorem delimited_laterElements (vs : List Value) (rest : List Char) :
    Delimited (laterElements vs ++ ']' :: rest) := by
  cases vs with
  | nil => exact delimited_cons (by simp) rest
  | cons v vs => exact delimited_cons (by simp) _

private theorem nextElement_first {text : List Char} (h : Opens text) (s : List Char) :
    nextElement true (text ++ s) = .ok (true, text ++ s) := by
  obtain ⟨c, t, rfl, hblank, hbracket, -⟩ := h
  rw [List.cons_append, nextElement, skipBlank_of_head hblank]
  split
  · rename_i heq
    cases heq
  · rename_i heq
    cases heq
    exact absurd rfl hbracket
  · rename_i heq
    cases heq
    rfl

private theorem nextElement_later {text : List Char} (h : Opens text) (s : List Char) :
    nextElement false (',' :: (text ++ s)) = .ok (true, text ++ s) := by
  obtain ⟨c, t, rfl, hblank, hbracket, -⟩ := h
  have hcomma : isBlank ',' = false := by decide
  rw [List.cons_append, nextElement, skipBlank_of_head hcomma]
  split
  · rename_i heq
    cases heq
  · rename_i heq
    cases heq
  · rename_i heq
    cases heq
    rw [if_neg Bool.false_ne_true, if_pos rfl, skipBlank_of_head hblank]
    split
    · rename_i heq
      cases heq
    · rename_i heq
      cases heq
      exact absurd rfl hbracket
    · rfl

section Lists

variable {read : Reader α} {write : α → Value}

private theorem elements_of_next {x : α} {fuel : Nat} {first : Bool} {acc : Array α}
    {s t : List Char} (hnext : nextElement first s = .ok (true, (write x).render ++ t))
    (hread : Reads read x (write x).render) (ht : Delimited t) :
    elements read (fuel + 1) first acc s = elements read fuel false (acc.push x) t := by
  rw [elements, hnext]
  simp only [bind, Except.bind, if_true, hread t ht]

private theorem elements_later {xs : List α} {fuel : Nat} (acc : Array α) (hfuel : xs.length < fuel)
    (h : ∀ x ∈ xs, Reads read x (write x).render ∧ Opens (write x).render) (rest : List Char) :
    elements read fuel false acc (laterElements (xs.map write) ++ ']' :: rest) =
      .ok (acc ++ xs.toArray, rest) := by
  induction xs generalizing fuel acc with
  | nil =>
    cases fuel with
    | zero => cases hfuel
    | succ fuel =>
      rw [elements, List.map_nil, Array.append_empty]
      rfl
  | cons x xs ih =>
    cases fuel with
    | zero => cases hfuel
    | succ fuel =>
      obtain ⟨hread, hopens⟩ := h x List.mem_cons_self
      have hlater := ih (acc.push x) (Nat.lt_of_succ_lt_succ hfuel)
        fun y hy => h y (List.mem_cons_of_mem _ hy)
      have hpush : acc ++ (x :: xs).toArray = acc.push x ++ xs.toArray := by
        apply Array.ext'
        simp
      rw [List.map_cons, laterElements_cons,
        elements_of_next (nextElement_later hopens _) hread (delimited_laterElements _ rest), hpush]
      exact hlater

private theorem length_le_laterElements (vs : List Value) :
    vs.length ≤ (laterElements vs).length := by
  induction vs with
  | nil => exact Nat.le_refl _
  | cons v vs ih =>
    rw [laterElements, List.flatMap_cons, List.length_append, List.length_cons, List.length_cons]
    change vs.length ≤ (vs.flatMap fun v => ',' :: v.render).length at ih
    omega

theorem reads_list {room : Nat} (hroom : room ≠ 0) (xs : List α)
    (h : ∀ x ∈ xs, Reads read x (write x).render ∧ Opens (write x).render) :
    Reads (list room read) xs.toArray (Value.array (xs.map write)).render := by
  intro rest _
  have hbracket : isBlank '[' = false := by decide
  rw [Value.render, List.cons_append, list, skipBlank_of_head hbracket]
  simp only [if_neg hroom, List.append_assoc, List.singleton_append]
  cases xs with
  | nil => rfl
  | cons x xs =>
    obtain ⟨hread, hopens⟩ := h x List.mem_cons_self
    have hfuel : xs.length <
        ((write x).render ++ (laterElements (xs.map write) ++ ']' :: rest)).length := by
      have hle := length_le_laterElements (xs.map write)
      rw [List.length_map] at hle
      simp only [List.length_append, List.length_cons]
      omega
    rw [List.map_cons, renderElements_cons, List.append_assoc,
      elements_of_next (nextElement_first hopens _) hread (delimited_laterElements _ rest),
      elements_later _ hfuel fun y hy => h y (List.mem_cons_of_mem _ hy)]
    simp

end Lists

/-! ## Records -/

def memberText (m : String × Value) : List Char := writeString m.1 ++ ':' :: m.2.render

def laterMembers (ms : List (String × Value)) : List Char := ms.flatMap fun m => ',' :: memberText m

private theorem renderMembers_cons (m : String × Value) (ms : List (String × Value)) :
    Value.renderMembers (m :: ms) = memberText m ++ laterMembers ms := by
  induction ms generalizing m with
  | nil => rw [Value.renderMembers, memberText, laterMembers, List.flatMap_nil, List.append_nil]
  | cons n ms ih =>
    rw [Value.renderMembers, ih]
    simp [memberText, laterMembers]

private theorem laterMembers_cons (m : String × Value) (ms : List (String × Value))
    (s : List Char) :
    laterMembers (m :: ms) ++ s = ',' :: (memberText m ++ (laterMembers ms ++ s)) := by
  simp [laterMembers]

private theorem delimited_laterMembers (ms : List (String × Value)) (rest : List Char) :
    Delimited (laterMembers ms ++ '\x7d' :: rest) := by
  cases ms with
  | nil => exact delimited_cons (by simp) rest
  | cons m ms => exact delimited_cons (by simp) _

private theorem length_le_laterMembers (ms : List (String × Value)) :
    ms.length ≤ (laterMembers ms).length := by
  induction ms with
  | nil => exact Nat.le_refl _
  | cons m ms ih =>
    rw [laterMembers, List.flatMap_cons, List.length_append, List.length_cons, List.length_cons]
    change ms.length ≤ (ms.flatMap fun m => ',' :: memberText m).length at ih
    omega

def memberBody (m : String × Value) : List Char :=
  (m.1.toList.flatMap escapeChar ++ ['"']) ++ ':' :: m.2.render

private theorem nextMember_first (m : String × Value) (s : List Char) :
    nextMember true (memberText m ++ s) = .ok (true, memberBody m ++ s) := by
  have hquote : isBlank '"' = false := by decide
  rw [memberText, writeString, List.cons_append, List.cons_append, nextMember,
    skipBlank_of_head hquote]
  rfl

private theorem nextMember_later (m : String × Value) (s : List Char) :
    nextMember false (',' :: (memberText m ++ s)) = .ok (true, memberBody m ++ s) := by
  have hcomma : isBlank ',' = false := by decide
  rw [memberText, writeString, List.cons_append, List.cons_append, nextMember,
    skipBlank_of_head hcomma]
  rfl

/-- The members are written with the fields in their order; `fill` puts what they read into a
record. -/
inductive Fills : List (RecordField R) → List (String × Value) → (R → R) → Prop where
  | nil : Fills [] [] id
  | cons {field : RecordField R} {fields : List (RecordField R)} {v : Value}
    {ms : List (String × Value)} {set fill : R → R} (read : Reads field.read set v.render)
    (rest : Fills fields ms fill) : Fills (field :: fields) ((field.name, v) :: ms) (fill ∘ set)

theorem reads_field {read : Reader α} {x : α} {text : List Char} (h : Reads read x text)
    (presence : Presence) (name : String) (set : α → R → R) :
    Reads (RecordField.ofReader presence name read set).read (set x) text := by
  intro rest hrest
  simp only [RecordField.ofReader, h rest hrest, bind, Except.bind]
  rfl

section Records

variable {fields todo : List (RecordField R)} {ms : List (String × Value)} {fill set : R → R}
  {field : RecordField R} {v : Value} {fuel : Nat} {seen : List String}

private theorem members_of_next {first : Bool} {s t : List Char} (r : R)
    (hnext : nextMember first s = .ok (true, memberBody (field.name, v) ++ t))
    (hfind : fields.find? (·.name == field.name) = some field) (hseen : field.name ∉ seen)
    (hread : Reads field.read set v.render) (ht : Delimited t) :
    members fields (fuel + 1) first seen r s =
      members fields fuel false (field.name :: seen) (set r) t := by
  have hname : quoted true [] (memberBody (field.name, v) ++ t) =
      .ok (field.name, ':' :: (v.render ++ t)) := by
    rw [memberBody, List.append_assoc, quoted_writeString]
    rfl
  have hcolon : colon (':' :: (v.render ++ t)) = .ok (v.render ++ t) := by
    have hblank : isBlank ':' = false := by decide
    rw [colon, skipBlank_of_head hblank]
    rfl
  have hnew : seen.contains field.name = false := by simpa using hseen
  rw [members, hnext]
  simp only [bind, Except.bind, if_true, hname, hfind, hnew, hcolon, hread t ht,
    Bool.false_eq_true, if_false]

/-- What is left of the members fills what is left of the fields, and then nothing is missing. -/
theorem members_later (h : Fills todo ms fill) (r : R) (hfuel : ms.length < fuel)
    (hfind : ∀ f ∈ todo, fields.find? (·.name == f.name) = some f)
    (hnodup : (todo.map RecordField.name).Nodup) (hseen : ∀ f ∈ todo, f.name ∉ seen)
    (hall : ∀ f ∈ fields, f ∈ todo ∨ f.name ∈ seen) (rest : List Char) :
    members fields fuel false seen r (laterMembers ms ++ '\x7d' :: rest) =
      .ok (fill r, rest) := by
  induction h generalizing fuel seen r with
  | nil =>
    cases fuel with
    | zero => cases hfuel
    | succ fuel =>
      have hmissing : (fields.any fun f => f.presence == .required && !seen.contains f.name) =
          false := by
        rw [List.any_eq_false]
        intro f hf
        have hname : f.name ∈ seen := (hall f hf).resolve_left (by simp)
        simp [hname]
      have hend : nextMember false (laterMembers [] ++ '\x7d' :: rest) = .ok (false, rest) := rfl
      rw [members, hend]
      simp only [bind, Except.bind, Bool.false_eq_true, if_false, hmissing]
      rfl
  | @cons field todo v ms set fill hread hrest ih =>
    cases fuel with
    | zero => cases hfuel
    | succ fuel =>
      obtain ⟨hfirst, hnodup⟩ := List.nodup_cons.mp hnodup
      rw [laterMembers_cons, members_of_next r (nextMember_later _ _)
        (hfind field List.mem_cons_self) (hseen field List.mem_cons_self) hread
        (delimited_laterMembers _ rest)]
      apply ih (set r) (Nat.lt_of_succ_lt_succ hfuel)
        (fun f hf => hfind f (List.mem_cons_of_mem _ hf)) hnodup
      · intro f hf hmem
        rcases List.mem_cons.mp hmem with heq | hmem
        · exact hfirst (heq ▸ List.mem_map_of_mem hf)
        · exact hseen f (List.mem_cons_of_mem _ hf) hmem
      · intro f hf
        rcases hall f hf with hmem | hmem
        · rcases List.mem_cons.mp hmem with rfl | hmem
          · exact .inr List.mem_cons_self
          · exact .inl hmem
        · exact .inr (List.mem_cons_of_mem _ hmem)

private theorem find?_name (hnodup : (fields.map RecordField.name).Nodup) :
    ∀ f ∈ fields, fields.find? (·.name == f.name) = some f := by
  induction fields with
  | nil => simp
  | cons field fields ih =>
    obtain ⟨hfirst, hnodup⟩ := List.nodup_cons.mp hnodup
    intro f hf
    rcases List.mem_cons.mp hf with rfl | hf
    · simp
    · have hne : (field.name == f.name) = false := by
        rw [beq_eq_false_iff_ne]
        intro heq
        exact hfirst (heq ▸ List.mem_map_of_mem hf)
      rw [List.find?_cons, hne]
      exact ih hnodup f hf

theorem reads_record {room : Nat} (hroom : room ≠ 0) (start : R) (h : Fills fields ms fill)
    (hnodup : (fields.map RecordField.name).Nodup) :
    Reads (record room fields start) (fill start) (Value.object ms).render := by
  intro rest _
  have hbrace : isBlank '\x7b' = false := by decide
  rw [Value.render, List.cons_append, record, skipBlank_of_head hbrace]
  simp only [if_neg hroom, List.append_assoc, List.singleton_append]
  cases h with
  | nil => rfl
  | @cons field todo v ms set fill hread hrest =>
    have hfuel : ms.length <
        (memberText (field.name, v) ++ (laterMembers ms ++ '\x7d' :: rest)).length := by
      have hle := length_le_laterMembers ms
      simp only [List.length_append, List.length_cons]
      omega
    have hfind := find?_name hnodup
    have hfirst := (List.nodup_cons.mp hnodup).1
    rw [renderMembers_cons, List.append_assoc, members_of_next start (nextMember_first _ _)
      (hfind field List.mem_cons_self) (by simp) hread (delimited_laterMembers _ rest)]
    apply members_later hrest (set start) hfuel
      (fun f hf => hfind f (List.mem_cons_of_mem _ hf)) (List.nodup_cons.mp hnodup).2
    · intro f hf hmem
      rw [List.mem_singleton] at hmem
      exact hfirst (hmem ▸ List.mem_map_of_mem hf)
    · intro f hf
      rcases List.mem_cons.mp hf with rfl | hf
      · exact .inr List.mem_cons_self
      · exact .inl hf

end Records

theorem reads_bare {alternatives : List (String × Alternative α)} {tag : String} {x : α}
    (h : alternatives.lookup tag = some (.bare x)) :
    Reads (tagged alternatives) x (Value.string tag).render := by
  intro rest _
  have hquote : isBlank '"' = false := by decide
  rw [Value.render, writeString, List.cons_append, tagged, skipBlank_of_head hquote]
  simp only [quoted_writeString, bind, Except.bind, h]
  rfl

/-- What reads back before a delimiter reads back as a whole text. -/
theorem parse_text {read : Reader α} {x : α} {v : Value} (h : Reads read x v.render) :
    parse read v.text = .ok x := by
  have hread := h [] delimited_nil
  rw [List.append_nil] at hread
  rw [parse, Value.text, String.toList_ofList, hread]
  rfl

end SlowRequest.Json
