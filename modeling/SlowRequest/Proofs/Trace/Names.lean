import SlowRequest.Proofs.Json.Yields
import SlowRequest.Trace.File
namespace SlowRequest

open Json

def Placed (names : List (Nat × String)) : Prop := names.Pairwise fun p q => p.1 < q.1

private theorem mem_placeName {number : Nat} {name : String} {names : List (Nat × String)}
    {p : Nat × String} (h : p ∈ placeName number name names) : p = (number, name) ∨ p ∈ names := by
  induction names with
  | nil => exact .inl (List.mem_singleton.mp h)
  | cons q rest ih =>
    rw [placeName] at h
    split at h
    · exact List.mem_cons.mp h
    · split at h
      · rcases List.mem_cons.mp h with h | h
        · exact .inl h
        · exact .inr (List.mem_cons_of_mem _ h)
      · rcases List.mem_cons.mp h with rfl | h
        · exact .inr List.mem_cons_self
        · exact (ih h).imp_right (List.mem_cons_of_mem _)

theorem Placed.placeName {names : List (Nat × String)} (h : Placed names) (number : Nat)
    (name : String) : Placed (placeName number name names) := by
  induction names with
  | nil => exact List.pairwise_singleton _ _
  | cons q rest ih =>
    obtain ⟨hfirst, hrest⟩ := List.pairwise_cons.mp h
    rw [SlowRequest.placeName]
    split
    · rename_i hlt
      refine List.pairwise_cons.mpr ⟨?_, h⟩
      intro p hp
      rcases List.mem_cons.mp hp with rfl | hp
      · exact hlt
      · exact Nat.lt_trans hlt (hfirst p hp)
    · split
      · rename_i heq
        subst heq
        exact List.pairwise_cons.mpr ⟨hfirst, hrest⟩
      · refine List.pairwise_cons.mpr ⟨?_, ih hrest⟩
        intro p hp
        rcases mem_placeName hp with rfl | hp
        · dsimp only
          omega
        · exact hfirst p hp

private theorem placed_namesInOrder (names : List (Nat × String)) : Placed (namesInOrder names) :=
  List.foldlRecOn names _ List.Pairwise.nil fun _ h q _ => h.placeName q.1 q.2

private theorem mem_namesInOrder {names : List (Nat × String)} {p : Nat × String}
    (h : p ∈ namesInOrder names) : p ∈ names := by
  refine List.foldlRecOn (motive := fun placed => ∀ q ∈ placed, q ∈ names) names _
    (fun q hq => absurd hq List.not_mem_nil) ?_ p h
  intro placed hplaced q hq r hr
  rcases mem_placeName hr with rfl | hr
  · exact hq
  · exact hplaced r hr

namespace TraceFile

/-- Each method and each application has at most one name. -/
structure NamesOnce (f : TraceFile) : Prop where
  methods : (f.methods.map Prod.fst).Nodup
  applications : (f.applications.map Prod.fst).Nodup

private theorem yields_names (limit : Nat) :
    Yields (names limit) fun ns => Placed ns ∧ ∀ p ∈ ns, p.1 < limit := by
  refine Yields.mapped ((yields_numericMap _ limit _).mono ?_)
  intro ns hlimit
  exact ⟨placed_namesInOrder ns, fun p hp => hlimit p (mem_namesInOrder hp)⟩

private theorem nodup_map_of_placed {κ : Type} {limit : Nat} {word : Nat → κ}
    (hword : ∀ m < limit, ∀ n < limit, word m = word n → m = n) {ns : List (Nat × String)}
    (hplaced : Placed ns) (hlimit : ∀ p ∈ ns, p.1 < limit) :
    ((ns.map fun p => (word p.1, p.2)).map Prod.fst).Nodup := by
  rw [List.map_map, List.Nodup, List.pairwise_map]
  refine hplaced.imp_of_mem ?_
  intro p q hp hq hlt heq
  have := hword p.1 (hlimit p hp) q.1 (hlimit q hq) heq
  omega

private theorem yields_reader : Yields reader NamesOnce := by
  apply yields_record
  · intro field hfield
    simp only [List.mem_cons, List.not_mem_nil, or_false] at hfield
    rcases hfield with rfl | rfl | rfl
    · refine RecordField.keeps_ofReader (yields_names _) ?_
      intro ns f ⟨hplaced, hlimit⟩ hf
      refine ⟨nodup_map_of_placed ?_ hplaced hlimit, hf.applications⟩
      intro m hm n hn heq
      have hnat := congrArg UInt64.toNat heq
      rwa [UInt64.toNat_ofNat_of_lt' hm, UInt64.toNat_ofNat_of_lt' hn] at hnat
    · refine RecordField.keeps_ofReader (yields_names _) ?_
      intro ns f ⟨hplaced, hlimit⟩ hf
      refine ⟨hf.methods, nodup_map_of_placed ?_ hplaced hlimit⟩
      intro m hm n hn heq
      have hnat := congrArg UInt32.toNat heq
      rwa [UInt32.toNat_ofNat_of_lt' hm, UInt32.toNat_ofNat_of_lt' hn] at hnat
    · refine RecordField.keeps_ofReader (Q := fun _ => True) (fun _ _ _ _ => trivial) ?_
      exact fun _ _ _ hf => ⟨hf.methods, hf.applications⟩
  · exact ⟨List.nodup_nil, List.nodup_nil⟩

theorem namesOnce_of_read {text : String} {f : TraceFile} (h : read text = .ok f) :
    f.NamesOnce := yields_reader.parse h

end TraceFile
end SlowRequest
