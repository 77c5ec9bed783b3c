import HealthRollup.Value.Merge
import Mathlib.Data.String.Basic

/-! Records with ascending keys. Two of them are equal as soon as every key has the same value in both,
so a merge patch is known once it is known what it leaves under each key. -/
namespace HealthRollup
namespace Fields

@[simp] theorem keys_nil : keys [] = [] := rfl
@[simp] theorem keys_cons (f : String × Value) (fs : Fields) : keys (f::fs) = f.1::keys fs := rfl

theorem get?_eq_none_iff (k : String) (fs : Fields) : get? k fs = none ↔ k ∉ keys fs := by
  rw [mem_keys_iff,Option.not_isSome_iff_eq_none]

theorem ordered_cons_iff (f : String × Value) (fs : Fields) :
    Ordered (f::fs) ↔ (∀ k ∈ keys fs, f.1 < k) ∧ Ordered fs := by
  simp [Ordered,List.pairwise_cons]

theorem mem_keys_put (j k : String) (v : Value) (fs : Fields) :
    j ∈ keys (put k v fs) ↔ j = k ∨ j ∈ keys fs := by
  rw [mem_keys_iff,get?_put,mem_keys_iff]
  by_cases h : k = j
  · simp [h]
  · simp [h,Ne.symm h]

theorem ordered_put (k : String) (v : Value) (fs : Fields) (h : Ordered fs) :
    Ordered (put k v fs) := by
  induction fs with
  | nil => simp [put,Ordered]
  | cons f fs ih =>
    obtain ⟨a,w⟩ := f
    obtain ⟨ha,hfs⟩ := (ordered_cons_iff _ _).mp h
    simp only [put]
    split
    · rename_i he
      subst he
      exact (ordered_cons_iff _ _).mpr ⟨ha,hfs⟩
    · rename_i hne
      split
      · rename_i hlt
        refine (ordered_cons_iff _ _).mpr ⟨?_,h⟩
        intro j hj
        rcases List.mem_cons.mp hj with rfl | hj
        · exact hlt
        · exact hlt.trans (ha j hj)
      · rename_i hnlt
        refine (ordered_cons_iff _ _).mpr ⟨?_,ih hfs⟩
        intro j hj
        rcases (mem_keys_put j k v fs).mp hj with rfl | hj
        · exact lt_of_le_of_ne (not_lt.mp hnlt) hne
        · exact ha j hj

theorem ordered_remove (k : String) (fs : Fields) (h : Ordered fs) : Ordered (remove k fs) :=
  List.Pairwise.sublist (List.filter_sublist.map Prod.fst) h

@[simp] theorem put_put (k : String) (v w : Value) (fs : Fields) :
    put k v (put k w fs) = put k v fs := by
  induction fs with
  | nil => simp [put]
  | cons f fs ih =>
    obtain ⟨a,u⟩ := f
    by_cases ha : a = k
    · simp [put,ha]
    · by_cases hlt : k < a
      · simp [put,ha,hlt]
      · simp [put,ha,hlt,ih]

/-- Two records with the same fields have the same least key. -/
theorem head_key_eq {a b : String} {v w : Value} {fs gs : Fields} (hf : ∀ k ∈ keys fs, a < k)
    (hg : ∀ k ∈ keys gs, b < k) (h : ∀ k, get? k ((a,v)::fs) = get? k ((b,w)::gs)) : a = b := by
  have hag : a ∈ keys ((b,w)::gs) := (mem_keys_iff _ _).mpr (by simp [← h a])
  have hbf : b ∈ keys ((a,v)::fs) := (mem_keys_iff _ _).mpr (by simp [h b])
  rcases List.mem_cons.mp hag with he | hag
  · exact he
  · rcases List.mem_cons.mp hbf with he | hbf
    · exact he.symm
    · exact absurd (hg a hag) (hf b hbf).not_gt

theorem ordered_ext (fs gs : Fields) (hf : Ordered fs) (hg : Ordered gs)
    (h : ∀ k, get? k fs = get? k gs) : fs = gs := by
  induction fs generalizing gs with
  | nil =>
    cases gs with
    | nil => rfl
    | cons g gs => simpa [get?] using h g.1
  | cons f fs ih =>
    cases gs with
    | nil => simpa [get?] using h f.1
    | cons g gs =>
      obtain ⟨a,v⟩ := f
      obtain ⟨b,w⟩ := g
      obtain ⟨ha,hfs⟩ := (ordered_cons_iff _ _).mp hf
      obtain ⟨hb,hgs⟩ := (ordered_cons_iff _ _).mp hg
      have hab : a = b := head_key_eq ha hb h
      subst hab
      have hv : v = w := by simpa using h a
      subst hv
      have ht : fs = gs := by
        apply ih gs hfs hgs
        intro k
        by_cases hk : a = k
        · subst hk
          have hfn : get? a fs = none := (get?_eq_none_iff a fs).mpr fun hm => lt_irrefl a (ha a hm)
          have hgn : get? a gs = none := (get?_eq_none_iff a gs).mpr fun hm => lt_irrefl a (hb a hm)
          rw [hfn,hgn]
        · simpa [hk] using h k
      rw [ht]

theorem get?_foldl_put_null (k : String) (ks : List String) (fs : Fields) :
    get? k (ks.foldl (fun fs j => put j .null fs) fs) =
      if k ∈ ks then some .null else get? k fs := by
  induction ks generalizing fs with
  | nil => simp
  | cons j ks ih =>
    rw [List.foldl_cons,ih,get?_put]
    by_cases hk : k ∈ ks
    · simp [hk]
    · by_cases hj : j = k
      · simp [hj]
      · simp [hk,hj,Ne.symm hj]

theorem ordered_foldl_put_null (ks : List String) (fs : Fields) (h : Ordered fs) :
    Ordered (ks.foldl (fun fs j => put j .null fs) fs) := by
  induction ks generalizing fs with
  | nil => exact h
  | cons j ks ih => exact ih _ (ordered_put j .null fs h)

end Fields

namespace Value
open Fields

/-- What a patch leaves under a key that held `old`: `null` takes the key away. -/
def patched (old : Option Value) : Option Value → Option Value
  | none => old
  | some .null => none
  | some p => some (merge (old.getD .null) p)

@[simp] theorem patched_none (old : Option Value) : patched old none = old := rfl
@[simp] theorem patched_null (old : Option Value) : patched old (some .null) = none := rfl
theorem patched_of_ne (old : Option Value) (p : Value) (h : p ≠ .null) :
    patched old (some p) = some (merge (old.getD .null) p) := by
  cases p with
  | null => exact absurd rfl h
  | bool | num | text | list | record => rfl

theorem get?_mergeFields (k : String) (fs ps : Fields) (h : Ordered ps) :
    get? k (mergeFields fs ps) = patched (get? k fs) (get? k ps) := by
  induction ps generalizing fs with
  | nil => simp
  | cons f ps ih =>
    obtain ⟨a,p⟩ := f
    obtain ⟨ha,hps⟩ := (ordered_cons_iff _ _).mp h
    have hnone : get? a ps = none := (get?_eq_none_iff a ps).mpr fun hm => lt_irrefl a (ha a hm)
    by_cases hp : p = .null
    · subst hp
      rw [mergeFields_null,ih _ hps,get?_remove,get?_cons]
      by_cases hk : a = k
      · subst hk
        simp [hnone]
      · simp [hk]
    · rw [mergeFields_cons fs a p ps hp,ih _ hps,get?_put,get?_cons]
      by_cases hk : a = k
      · subst hk
        simp [hnone,patched_of_ne _ p hp]
      · simp [hk]

theorem ordered_mergeFields (fs ps : Fields) (h : Ordered fs) : Ordered (mergeFields fs ps) := by
  induction ps generalizing fs with
  | nil => exact h
  | cons f ps ih =>
    obtain ⟨a,p⟩ := f
    by_cases hp : p = .null
    · subst hp
      exact ih _ (ordered_remove a fs h)
    · rw [mergeFields_cons fs a p ps hp]
      exact ih _ (ordered_put a _ fs h)

theorem merge_field (v : Value) (k : String) (ps : Fields) :
    merge v (.record [(k,.record ps)]) =
      .record (put k (.record (mergeFields (base ((get? k (base v)).getD .null)) ps)) (base v)) := by
  rw [merge_record,mergeFields_cons _ _ _ _ (by simp),mergeFields_nil,merge_record]

end Value
end HealthRollup
