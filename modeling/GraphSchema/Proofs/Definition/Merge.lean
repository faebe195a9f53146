import GraphSchema.Store.Text

namespace GraphSchema

section Merge

variable {α : Type} {seen : List String} {ps : List (String × α)} {n : String}

-- Of each name, what is kept is what a search for it finds first.
theorem filter_firstOfEach (seen : List String) (ps : List (String × α)) (n : String) :
    (firstOfEach seen ps).filter (·.1 == n) =
      if n ∈ seen then [] else (ps.find? (·.1 == n)).toList := by
  induction ps generalizing seen
  case nil => simp [firstOfEach]
  case cons p ps hi =>
    simp only [firstOfEach]
    by_cases hp : p.1 ∈ seen <;> by_cases hn : p.1 = n
    · subst hn
      simp [hp, hi]
    · simp [hp, hi, hn]
    · subst hn
      simp [hp, hi]
    · simp [hp, hi, hn, Ne.symm hn]

-- Only which names were seen counts, not in which order or how often.
theorem firstOfEach_congr {names : List String} (h : ∀ n, n ∈ seen ↔ n ∈ names) :
    firstOfEach seen ps = firstOfEach names ps := by
  induction ps generalizing seen names
  case nil => rfl
  case cons p ps hi =>
    have tail : firstOfEach (p.1 :: seen) ps = firstOfEach (p.1 :: names) ps :=
      hi fun n => by simp only [List.mem_cons, h]
    simp only [firstOfEach, h, hi h, tail]

theorem firstOfEach_cons (seen : List String) (p : String × α) (ps : List (String × α)) :
    firstOfEach seen (p :: ps) =
      (if p.1 ∈ seen then [] else [p]) ++ firstOfEach (p.1 :: seen) ps := by
  rw [firstOfEach]
  split
  case isTrue hp =>
    refine firstOfEach_congr fun n => ?_
    rw [List.mem_cons, or_iff_right_of_imp fun e => e ▸ hp]
  case isFalse => rfl

theorem firstOfEach_append (seen : List String) (ps qs : List (String × α)) :
    firstOfEach seen (ps ++ qs) =
      firstOfEach seen ps ++ firstOfEach (ps.map (·.1) ++ seen) qs := by
  induction ps generalizing seen
  case nil => rfl
  case cons p ps hi =>
    have e : firstOfEach (ps.map (·.1) ++ p.1 :: seen) qs =
        firstOfEach ((p :: ps).map (·.1) ++ seen) qs :=
      firstOfEach_congr fun _ => List.perm_middle.mem_iff
    rw [List.cons_append, firstOfEach_cons, firstOfEach_cons, hi, e, List.append_assoc]

theorem firstOfEach_sublist (seen : List String) (ps : List (String × α)) :
    (firstOfEach seen ps).Sublist ps := by
  induction ps generalizing seen
  case nil => exact .slnil
  case cons p ps hi =>
    rw [firstOfEach]
    split
    case isTrue => exact (hi seen).cons p
    case isFalse => exact (hi _).cons_cons p

-- Where no name occurs twice, nothing is left out but what was seen.
theorem firstOfEach_eq_filter (seen : List String) (h : (ps.map (·.1)).Nodup) :
    firstOfEach seen ps = ps.filter (·.1 ∉ seen) := by
  induction ps generalizing seen
  case nil => rfl
  case cons p ps hi =>
    have ⟨hp, hn⟩ := List.nodup_cons.mp h
    have e : ps.filter (·.1 ∉ p.1 :: seen) = ps.filter (·.1 ∉ seen) := by
      refine List.filter_congr fun q hq => ?_
      have hne : q.1 ≠ p.1 := fun e => hp (List.mem_map.mpr ⟨q, hq, e⟩)
      simp [hne]
    rw [firstOfEach_cons, hi _ hn, e, List.filter_cons]
    by_cases hs : p.1 ∈ seen <;> simp [hs]

theorem find?_firstOfEach (ps : List (String × α)) (n : String) :
    (firstOfEach [] ps).find? (·.1 == n) = ps.find? (·.1 == n) := by
  rw [← List.head?_filter, filter_firstOfEach, if_neg List.not_mem_nil, Option.head?_toList]

theorem mem_names_iff_find? : n ∈ ps.map (·.1) ↔ (ps.find? (·.1 == n)).isSome := by
  simp [List.mem_map]

theorem mem_names_firstOfEach : n ∈ (firstOfEach [] ps).map (·.1) ↔ n ∈ ps.map (·.1) := by
  rw [mem_names_iff_find?, mem_names_iff_find?, find?_firstOfEach]

variable {sources : List (List (String × α))}

theorem nodup_merge : ((merge sources).map (·.1)).Nodup := nodup_firstOfEach [] _

theorem mem_of_mem_merge {p : String × α} (h : p ∈ merge sources) : p ∈ sources.flatten :=
  (mem_of_mem_firstOfEach h).left

-- Every name that occurs is kept once.
theorem filter_merge {p : String × α} (h : p ∈ sources.flatten) :
    ∃ a, (p.1, a) ∈ sources.flatten ∧ (merge sources).filter (·.1 == p.1) = [(p.1, a)] := by
  have hs : (sources.flatten.find? (·.1 == p.1)).isSome :=
    List.find?_isSome.mpr ⟨p, h, beq_self_eq_true p.1⟩
  have ⟨⟨n, a⟩, hf⟩ := Option.isSome_iff_exists.mp hs
  have hn : n = p.1 := by simpa using List.find?_some hf
  subst hn
  refine ⟨a, List.mem_of_find?_eq_some hf, ?_⟩
  rw [merge, filter_firstOfEach, hf]
  rfl

theorem merge_ne_nil (h : sources.flatten ≠ []) : merge sources ≠ [] := by
  have ⟨p, hp⟩ := List.exists_mem_of_ne_nil _ h
  have ⟨a, _, hf⟩ := filter_merge hp
  intro hm
  simp [hm] at hf

end Merge

namespace Declaration

-- All declarations of a name give it the same type.
def Agree (ds : List Declaration) : Prop :=
  ∀ d ∈ ds, ∀ e ∈ ds, d.field = e.field → d.type = e.type

variable {known ds : List Declaration} {d first : Declaration}

theorem Agree.of_cons (h : Agree (d :: ds)) : Agree ds :=
  fun a ha b hb => h a (List.mem_cons_of_mem d ha) b (List.mem_cons_of_mem d hb)

theorem agree_cons_iff (hf : first ∈ ds) (hn : first.field = d.field) :
    Agree (d :: ds) ↔ first.type = d.type ∧ Agree ds := by
  constructor
  · exact fun h => ⟨h first (List.mem_cons_of_mem d hf) d List.mem_cons_self hn, h.of_cons⟩
  · intro ⟨ht, h⟩ a ha b hb e
    -- What agrees with the first declaration of the name agrees with the new one.
    rcases List.mem_cons.mp ha with rfl | ha' <;> rcases List.mem_cons.mp hb with rfl | hb'
    case inl.inl => rfl
    case inl.inr => exact ht.symm.trans (h first hf b hb' (hn.trans e))
    case inr.inl => exact (h a ha' first hf (e.trans hn.symm)).trans ht
    case inr.inr => exact h a ha' b hb' e

theorem agree_of_perm {es : List Declaration} (h : ds.Perm es) : Agree ds ↔ Agree es := by
  simp only [Agree, h.mem_iff]

-- As long as one declaration of each name is known, it is enough to compare with the known ones.
theorem conflict?_eq_none_iff (hk : Agree known) :
    conflict? known ds = none ↔ Agree (known ++ ds) := by
  induction ds generalizing known
  case nil => simpa [conflict?] using hk
  case cons d ds hi =>
    have hp : (known ++ d :: ds).Perm (d :: (known ++ ds)) := List.perm_middle
    rw [conflict?, agree_of_perm hp]
    split
    case h_1 hf =>
      have hn : ∀ e ∈ known, e.field ≠ d.field := by simpa using List.find?_eq_none.mp hf
      have hk' : Agree (known ++ [d]) := by
        intro a ha b hb e
        simp only [List.mem_append, List.mem_singleton] at ha hb
        rcases ha with ha | rfl <;> rcases hb with hb | rfl
        · exact hk a ha b hb e
        · exact absurd e (hn a ha)
        · exact absurd e.symm (hn b hb)
        · rfl
      rw [hi hk', List.append_assoc, List.singleton_append, agree_of_perm hp]
    case h_2 first hf =>
      have hm := List.mem_append_left ds (List.mem_of_find?_eq_some hf)
      rw [agree_cons_iff hm (by simpa using List.find?_some hf)]
      split
      case isTrue ht => simp [hi hk, ht]
      case isFalse ht => simp [ht]

end Declaration

end GraphSchema
