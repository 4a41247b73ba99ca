import Mathlib.Data.List.Induction
import Mathlib.Data.List.Nodup
import SqlReach.Register

/-!
# Registers with different keys

A register whose keys are all different is a list of keys together with a
function that gives each of them its value.  In that form storing a value changes
the function at one key and appends the key if it is new.
-/

namespace SqlReach.Register

variable {κ α : Type} [DecidableEq κ]

/-- The keys after a key was stored. -/
def keysWith (key : κ) (keys : List κ) : List κ :=
  if key ∈ keys then keys else keys ++ [key]

theorem prefix_keysWith (key : κ) (keys : List κ) : keys <+: keysWith key keys := by
  rw [keysWith]
  split
  · exact List.prefix_refl keys
  · exact List.prefix_append keys [key]

theorem nodup_keysWith {keys : List κ} (hkeys : keys.Nodup) (key : κ) :
    (keysWith key keys).Nodup := by
  rw [keysWith]
  split
  · exact hkeys
  · rename_i hnew
    refine List.nodup_append.mpr ⟨hkeys, List.nodup_singleton key, ?_⟩
    intro known hknown other hother heq
    rw [List.mem_singleton] at hother
    rw [heq, hother] at hknown
    exact hnew hknown

theorem put_map (key : κ) (value : α) (valueOf : κ → α) {keys : List κ} (hkeys : keys.Nodup) :
    put key value (keys.map fun known => (known, valueOf known)) =
      (keysWith key keys).map fun known =>
        (known, if known = key then value else valueOf known) := by
  induction keys with
  | nil => simp [put, keysWith]
  | cons first rest ih =>
      obtain ⟨hfirst, hrest⟩ := List.nodup_cons.mp hkeys
      by_cases hkey : first = key
      · subst hkey
        have hunchanged : ∀ known ∈ rest, known = first → valueOf known = value := by
          rintro known hknown rfl
          exact absurd hknown hfirst
        simpa [put, keysWith] using hunchanged
      · have hrestWith : keysWith key (first :: rest) = first :: keysWith key rest := by
          by_cases hmem : key ∈ rest
          · simp [keysWith, hmem]
          · simp [keysWith, hmem, Ne.symm hkey]
        rw [hrestWith, List.map_cons, List.map_cons, put, if_neg hkey, if_neg hkey, ih hrest]

/-- Looking up a key gives its value if the key is there. -/
theorem lookup_map (valueOf : κ → α) (key : κ) (keys : List κ) :
    (keys.map fun known => (known, valueOf known)).lookup key =
      if key ∈ keys then some (valueOf key) else none := by
  induction keys with
  | nil => rfl
  | cons first rest ih =>
      rw [List.map_cons, List.lookup_cons, ih]
      by_cases hkey : key = first
      · simp [hkey]
      · have hbeq : (key == first) = false := by simpa using hkey
        simp [hbeq, hkey]

/-- Storing replaces the value of a known key where it stands, and appends a new key. -/
theorem put_cases (key : κ) (value : α) (entries : List (κ × α)) :
    (∃ before old after, entries = before ++ (key, old) :: after ∧
      entries.lookup key = some old ∧ put key value entries = before ++ (key, value) :: after) ∨
    key ∉ entries.map (·.1) ∧ put key value entries = entries ++ [(key, value)] := by
  induction entries with
  | nil => exact Or.inr ⟨List.not_mem_nil, rfl⟩
  | cons entry rest ih =>
      obtain ⟨known, old⟩ := entry
      by_cases hknown : known = key
      · subst hknown
        exact Or.inl ⟨[], old, rest, rfl, List.lookup_cons_self, by rw [put, if_pos rfl]; rfl⟩
      · rw [put, if_neg hknown, List.lookup_cons, beq_false_of_ne (Ne.symm hknown)]
        rcases ih with ⟨before, stored, after, hrest, hlookup, hput⟩ | ⟨hnew, hput⟩
        · exact Or.inl ⟨(known, old) :: before, stored, after, by rw [hrest]; rfl, hlookup,
            by rw [hput]; rfl⟩
        · refine Or.inr ⟨?_, by rw [hput]; rfl⟩
          rw [List.map_cons, List.mem_cons, not_or]
          exact ⟨Ne.symm hknown, hnew⟩

theorem keys_put (key : κ) (value : α) (entries : List (κ × α)) :
    (put key value entries).map (·.1) = keysWith key (entries.map (·.1)) := by
  rw [keysWith]
  rcases put_cases key value entries with ⟨before, old, after, hentries, -, hput⟩ | ⟨hnew, hput⟩
  · have hkey : key ∈ entries.map (·.1) := by simp [hentries]
    rw [if_pos hkey, hput, hentries, List.map_append, List.map_append]
    rfl
  · rw [if_neg hnew, hput, List.map_append]
    rfl

/-- Where the keys are all different, their order does not matter for looking up. -/
theorem lookup_perm {left right : List (κ × α)} (hperm : left.Perm right)
    (hkeys : (left.map (·.1)).Nodup) (key : κ) : left.lookup key = right.lookup key := by
  induction hperm with
  | nil => rfl
  | cons entry hrest ih =>
      obtain ⟨known, value⟩ := entry
      rw [List.lookup_cons, List.lookup_cons, ih (List.nodup_cons.mp hkeys).2]
  | swap first second rest =>
      obtain ⟨left, leftValue⟩ := first
      obtain ⟨right, rightValue⟩ := second
      have hother : right ≠ left := by
        rintro rfl
        simp at hkeys
      simp only [List.lookup_cons]
      grind
  | trans hfirst hsecond ihFirst ihSecond =>
      rw [ihFirst hkeys, ihSecond ((hfirst.map _).nodup_iff.mp hkeys)]

/-- Keeping the first occurrence of each key is storing the keys one after the other. -/
theorem eraseDups_concat (keys : List κ) (key : κ) :
    (keys ++ [key]).eraseDups = keysWith key keys.eraseDups := by
  rw [List.eraseDups_append]
  by_cases hkey : key ∈ keys
  · simp [keysWith, hkey, List.removeAll]
  · simp [keysWith, hkey, List.removeAll, List.eraseDups_cons]

theorem nodup_eraseDups (keys : List κ) : keys.eraseDups.Nodup := by
  induction keys using List.reverseRecOn with
  | nil => exact List.nodup_nil
  | append_singleton keys key ih =>
      rw [eraseDups_concat]
      exact nodup_keysWith ih key

/-- Leaving out keys and leaving out repetitions can be done in either order. -/
theorem eraseDups_filter (keep : κ → Bool) (keys : List κ) :
    (keys.filter keep).eraseDups = keys.eraseDups.filter keep := by
  induction keys using List.reverseRecOn with
  | nil => rfl
  | append_singleton keys key ih =>
      rw [List.filter_append, eraseDups_concat, keysWith]
      cases hkeep : keep key with
      | false =>
          have hdropped : [key].filter keep = [] := by simp [hkeep]
          rw [hdropped, List.append_nil, ih]
          split
          · rfl
          · rw [List.filter_append, hdropped, List.append_nil]
      | true =>
          have hkept : [key].filter keep = [key] := by simp [hkeep]
          have hmem : key ∈ (keys.filter keep).eraseDups ↔ key ∈ keys.eraseDups := by
            simp [hkeep]
          rw [hkept, eraseDups_concat, keysWith, ih]
          rw [ih] at hmem
          by_cases hkey : key ∈ keys.eraseDups
          · rw [if_pos hkey, if_pos (hmem.mpr hkey)]
          · rw [if_neg hkey, if_neg fun hfound => hkey (hmem.mp hfound), List.filter_append, hkept]

theorem eraseDups_append (left right : List κ) :
    (left ++ right).eraseDups =
      left.eraseDups ++ right.eraseDups.filter (· ∉ left.eraseDups) := by
  have hremoved : right.removeAll left = right.filter (· ∉ left.eraseDups) := by
    apply List.filter_congr
    intro key _
    simp
  rw [List.eraseDups_append, hremoved, eraseDups_filter]

theorem eraseDups_eq_self {keys : List κ} (hkeys : keys.Nodup) : keys.eraseDups = keys := by
  induction keys using List.reverseRecOn with
  | nil => rfl
  | append_singleton keys key ih =>
      obtain ⟨hkeys, -, hnew⟩ := List.nodup_append.mp hkeys
      have hkey : key ∉ keys := fun hknown => hnew key hknown key (List.mem_singleton_self key) rfl
      rw [eraseDups_concat, ih hkeys, keysWith, if_neg hkey]

end SqlReach.Register
