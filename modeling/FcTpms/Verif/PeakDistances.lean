import FcTpms.Extractor.PeakPasses
import Mathlib.Data.List.Count
import Mathlib.Data.List.Nodup
import Mathlib.Tactic.NormNum

/-!
# The nominal period is the mode of the distances

Both passes over a file of whole samples find the same peaks, the second one fills its array with
them, and the table of the distances counts each of them, with the most frequent one at hand. The
arrays are as long as it takes.
-/

namespace FcTpms.Extractor

/-! ## Counting -/

/-- The table is that of the distances seen so far. -/
structure Tally.Of (tally : Tally) (seen : List ℤ) : Prop where
  distinct : (tally.freqs.map Prod.fst).Nodup
  counted : ∀ (place : ℕ) (freq : ℤ × ℕ), tally.freqs[place]? = some freq →
    freq.2 = seen.count freq.1
  covers : ∀ distance, distance ∈ tally.freqs.map Prod.fst ↔ distance ∈ seen
  first : seen = [] → tally.mostFreqIndex = 0
  most : seen ≠ [] → ∃ freq, tally.freqs[tally.mostFreqIndex]? = some freq ∧
    ∀ distance, seen.count distance ≤ freq.2

/-- A table has at most as many entries as there are distances. -/
theorem Tally.Of.length_le {tally : Tally} {seen : List ℤ} (of : tally.Of seen) :
    tally.freqs.length ≤ seen.length := by
  have subset : tally.freqs.map Prod.fst ⊆ seen :=
    fun distance there => (of.covers distance).mp there
  have shorter := (List.subperm_of_subset of.distinct subset).length_le
  rwa [List.length_map] at shorter

/-- The number of occurrences at a place of the table. -/
def Tally.occurrences (freqs : List (ℤ × ℕ)) (place : ℕ) : ℕ := (freqs[place]?.map Prod.snd).getD 0

/-- A distance that is not in the table becomes its last entry. -/
theorem Tally.count_new {tally : Tally} {distance : ℤ}
    (absent : distance ∉ tally.freqs.map Prod.fst) :
    tally.count distance =
      { freqs := tally.freqs ++ [(distance, 1)]
        mostFreqIndex :=
          if occurrences (tally.freqs ++ [(distance, 1)]) tally.mostFreqIndex < 1
          then tally.freqs.length else tally.mostFreqIndex } := by
  have last : (tally.freqs.findIdx fun freq => freq.1 == distance) = tally.freqs.length := by
    rw [List.findIdx_eq_length]
    intro freq there
    apply beq_false_of_ne
    intro same
    exact absent (List.mem_map.mpr ⟨freq, there, same⟩)
  have modified : (tally.freqs ++ [(distance, 0)]).modify tally.freqs.length
      (fun freq => (freq.1, freq.2 + 1)) = tally.freqs ++ [(distance, 1)] := by
    rw [List.modify_eq_set_getElem?, List.getElem?_append_right (Nat.le_refl _), Nat.sub_self]
    simp
  have entry : (tally.freqs ++ [(distance, 1)])[tally.freqs.length]? = some (distance, 1) := by
    rw [List.getElem?_append_right (Nat.le_refl _), Nat.sub_self]
    rfl
  unfold count
  simp only [last, if_true, modified, entry, Option.map_some, Option.getD_some]
  rfl

/-- A distance that is in the table is counted there. -/
theorem Tally.count_known {tally : Tally} {distance : ℤ} {place occurred : ℕ}
    (distinct : (tally.freqs.map Prod.fst).Nodup)
    (there : tally.freqs[place]? = some (distance, occurred)) :
    tally.count distance =
      { freqs := tally.freqs.set place (distance, occurred + 1)
        mostFreqIndex :=
          if occurrences (tally.freqs.set place (distance, occurred + 1)) tally.mostFreqIndex <
            occurred + 1 then place else tally.mostFreqIndex } := by
  obtain ⟨inside, entry⟩ := List.getElem?_eq_some_iff.mp there
  have found : (tally.freqs.findIdx fun freq => freq.1 == distance) = place := by
    rw [List.findIdx_eq inside]
    constructor
    · rw [entry]
      simp
    · intro earlier before
      apply beq_false_of_ne
      intro same
      have first : (tally.freqs.map Prod.fst)[earlier]? = some distance := by
        rw [List.getElem?_map, List.getElem?_eq_getElem (by omega), Option.map_some, same]
      have second : (tally.freqs.map Prod.fst)[place]? = some distance := by
        rw [List.getElem?_map, there]
        rfl
      have bound : earlier < (tally.freqs.map Prod.fst).length := by
        rw [List.length_map]
        omega
      have equal := (List.getElem?_inj bound distinct).mp (first.trans second.symm)
      omega
  have modified : tally.freqs.modify place (fun freq => (freq.1, freq.2 + 1)) =
      tally.freqs.set place (distance, occurred + 1) := by
    rw [List.modify_eq_set_getElem?, there]
    rfl
  have old : place ≠ tally.freqs.length := by omega
  have entry : (tally.freqs.set place (distance, occurred + 1))[place]? =
      some (distance, occurred + 1) := List.getElem?_set_self inside
  unfold count
  simp only [found, if_neg old, modified, entry, Option.map_some, Option.getD_some]
  rfl

/-- The occurrences of a distance after one more. -/
theorem count_append_singleton (seen : List ℤ) (distance other : ℤ) :
    (seen ++ [distance]).count other = seen.count other + if distance = other then 1 else 0 := by
  rw [List.count_append, List.count_singleton]
  simp

/-- Different places of a table hold different distances. -/
theorem Tally.Of.place_unique {tally : Tally} {seen : List ℤ} (of : tally.Of seen)
    {first second : ℕ}
    {freq other : ℤ × ℕ} (here : tally.freqs[first]? = some freq)
    (there : tally.freqs[second]? = some other) (same : freq.1 = other.1) : first = second := by
  have firstKey : (tally.freqs.map Prod.fst)[first]? = some freq.1 := by
    rw [List.getElem?_map, here]
    rfl
  have secondKey : (tally.freqs.map Prod.fst)[second]? = some freq.1 := by
    rw [List.getElem?_map, there, same]
    rfl
  have inside : first < (tally.freqs.map Prod.fst).length := by
    rw [List.length_map]
    exact (List.getElem?_eq_some_iff.mp here).1
  exact (List.getElem?_inj inside of.distinct).mp (firstKey.trans secondKey.symm)

/-- Counting a distance that is not in the table. -/
theorem Tally.Of.count_new {tally : Tally} {seen : List ℤ} (of : tally.Of seen) {distance : ℤ}
    (absent : distance ∉ tally.freqs.map Prod.fst) :
    (tally.count distance).Of (seen ++ [distance]) := by
  have unseen : seen.count distance = 0 :=
    List.count_eq_zero.mpr fun there => absent ((of.covers distance).mpr there)
  rw [Tally.count_new absent]
  constructor
  · rw [List.map_append, List.nodup_append]
    refine ⟨of.distinct, List.nodup_singleton _, ?_⟩
    intro key there other last same
    rw [List.map_singleton, List.mem_singleton] at last
    rw [same, last] at there
    exact absent there
  · intro place freq entry
    rw [count_append_singleton]
    rcases Nat.lt_or_ge place tally.freqs.length with inside | past
    · rw [List.getElem?_append_left inside] at entry
      have other : distance ≠ freq.1 := by
        intro same
        apply absent
        rw [same]
        exact List.mem_map.mpr ⟨freq, List.mem_of_getElem? entry, rfl⟩
      rw [if_neg other]
      exact of.counted place freq entry
    · rw [List.getElem?_append_right past] at entry
      have last : freq = (distance, 1) := by
        have listed := List.mem_of_getElem? entry
        rwa [List.mem_singleton] at listed
      rw [last, unseen, if_pos rfl]
  · intro other
    rw [List.map_append, List.mem_append, List.mem_append, of.covers]
    simp
  · intro empty
    simp at empty
  · intro _
    by_cases empty : seen = []
    · have noEntry : tally.freqs = [] := by
        rw [List.eq_nil_iff_forall_not_mem]
        intro freq there
        have listed := (of.covers freq.1).mp (List.mem_map.mpr ⟨freq, there, rfl⟩)
        rw [empty] at listed
        contradiction
      refine ⟨(distance, 1), ?_, ?_⟩
      · rw [noEntry]
        cases tally.mostFreqIndex with
        | zero => rfl
        | succ index => rfl
      · intro other
        rw [count_append_singleton, empty]
        simp only [List.count_nil]
        split <;> omega
    · obtain ⟨freq, entry, above⟩ := of.most empty
      have inside := (List.getElem?_eq_some_iff.mp entry).1
      have still : (tally.freqs ++ [(distance, 1)])[tally.mostFreqIndex]? = some freq := by
        rw [List.getElem?_append_left inside]
        exact entry
      have positive : 1 ≤ freq.2 := by
        obtain ⟨first, rest, shape⟩ := List.exists_cons_of_ne_nil empty
        have counted := above first
        rw [shape, List.count_cons_self] at counted
        omega
      have stays : ¬ occurrences (tally.freqs ++ [(distance, 1)]) tally.mostFreqIndex < 1 := by
        unfold occurrences
        rw [still]
        simp only [Option.map_some, Option.getD_some]
        omega
      refine ⟨freq, ?_, ?_⟩
      · rw [if_neg stays]
        exact still
      · intro other
        rw [count_append_singleton]
        by_cases same : distance = other
        · rw [if_pos same, ← same, unseen]
          omega
        · rw [if_neg same]
          exact above other

/-- A new count leaves the distances of a table as they are. -/
theorem Tally.keys_set {freqs : List (ℤ × ℕ)} {place occurred : ℕ} {key : ℤ}
    (there : freqs[place]? = some (key, occurred)) (next : ℕ) :
    (freqs.set place (key, next)).map Prod.fst = freqs.map Prod.fst := by
  have inside := (List.getElem?_eq_some_iff.mp there).1
  rw [List.map_set]
  apply List.ext_getElem?
  intro other
  rw [List.getElem?_set]
  split
  · rename_i here
    rw [← here, List.getElem?_map, there]
    simp [inside]
  · rfl

/-- Counting a distance that is in the table. -/
theorem Tally.Of.count_known {tally : Tally} {seen : List ℤ} (of : tally.Of seen) {distance : ℤ}
    (known : distance ∈ tally.freqs.map Prod.fst) :
    (tally.count distance).Of (seen ++ [distance]) := by
  obtain ⟨⟨key, occurred⟩, listed, rfl⟩ := List.mem_map.mp known
  obtain ⟨place, there⟩ := List.mem_iff_getElem?.mp listed
  have inside := (List.getElem?_eq_some_iff.mp there).1
  have occurredIs : occurred = seen.count key := of.counted place _ there
  rw [Tally.count_known of.distinct there]
  have keys := Tally.keys_set there (occurred + 1)
  constructor
  · rw [keys]
    exact of.distinct
  · intro other freq entry
    rw [count_append_singleton]
    rw [List.getElem?_set] at entry
    by_cases here : place = other
    · rw [if_pos here, if_pos (here ▸ inside)] at entry
      rw [← Option.some.inj entry, if_pos rfl, ← occurredIs]
    · rw [if_neg here] at entry
      have distinct : key ≠ freq.1 := fun same => here (of.place_unique there entry same)
      rw [if_neg distinct]
      exact of.counted other freq entry
  · intro other
    rw [keys, of.covers, List.mem_append, List.mem_singleton]
    constructor
    · exact Or.inl
    · rintro (there | same)
      · exact there
      · rw [same]
        exact (of.covers key).mp known
  · intro empty
    simp at empty
  · intro _
    have some_seen : seen ≠ [] := by
      intro empty
      have member := (of.covers key).mp known
      rw [empty] at member
      contradiction
    obtain ⟨freq, entry, above⟩ := of.most some_seen
    have counted : ∀ other, (seen ++ [key]).count other ≤ max freq.2 (occurred + 1) := by
      intro other
      rw [count_append_singleton]
      by_cases same : key = other
      · rw [if_pos same, ← same, ← occurredIs]
        exact Nat.le_max_right _ _
      · rw [if_neg same]
        exact Nat.le_trans (above other) (Nat.le_max_left _ _)
    have top := above key
    rw [← occurredIs] at top
    by_cases here : place = tally.mostFreqIndex
    · have now : (tally.freqs.set place (key, occurred + 1))[tally.mostFreqIndex]? =
          some (key, occurred + 1) := by
        rw [← here]
        exact List.getElem?_set_self inside
      have same : freq.2 = occurred := by
        rw [← here, there] at entry
        rw [← Option.some.inj entry]
      have stays : ¬ occurrences (tally.freqs.set place (key, occurred + 1)) tally.mostFreqIndex <
          occurred + 1 := by
        unfold occurrences
        rw [now]
        simp
      refine ⟨(key, occurred + 1), by rw [if_neg stays]; exact now, ?_⟩
      intro other
      have bound := counted other
      rw [Nat.max_eq_right (by omega)] at bound
      exact bound
    · have now : (tally.freqs.set place (key, occurred + 1))[tally.mostFreqIndex]? = some freq := by
        rw [List.getElem?_set_ne here]
        exact entry
      by_cases overtaken : freq.2 < occurred + 1
      · refine ⟨(key, occurred + 1), ?_, ?_⟩
        · rw [if_pos (by unfold occurrences; rw [now]; exact overtaken)]
          exact List.getElem?_set_self inside
        · intro other
          have bound := counted other
          rw [Nat.max_eq_right (by omega)] at bound
          exact bound
      · refine ⟨freq, ?_, ?_⟩
        · rw [if_neg (by unfold occurrences; rw [now]; exact overtaken)]
          exact now
        · intro other
          have bound := counted other
          rw [Nat.max_eq_left (by omega)] at bound
          exact bound

/-- Counting a distance. -/
theorem Tally.Of.count {tally : Tally} {seen : List ℤ} (of : tally.Of seen) (distance : ℤ) :
    (tally.count distance).Of (seen ++ [distance]) := by
  by_cases known : distance ∈ tally.freqs.map Prod.fst
  · exact of.count_known known
  · exact of.count_new known

namespace CArray

variable {α : Type}

/-- An array whose first entries are written. -/
def filled (values : List α) (room : ℕ) : CArray α :=
  ⟨values.map some ++ List.replicate room none⟩

/-- A written entry can be read. -/
theorem read_filled {values : List α} (room : ℕ) {index : ℕ} {value : α}
    (entry : values[index]? = some value) : (filled values room).read index = some value := by
  have inside := (List.getElem?_eq_some_iff.mp entry).1
  unfold read filled
  rw [List.getElem?_append_left (by rwa [List.length_map]), List.getElem?_map, entry]
  rfl

/-- The first entry that is not written can be. -/
theorem write_filled_next (values : List α) (room : ℕ) (value : α) :
    (filled values (room + 1)).write values.length value =
      some (filled (values ++ [value]) room) := by
  unfold write filled
  have inside : values.length <
      (values.map some ++ List.replicate (room + 1) (none : Option α)).length := by
    simp
  rw [if_pos inside, List.set_append_right _ _ (by rw [List.length_map]), List.length_map,
    Nat.sub_self, List.replicate_succ]
  simp

/-- A written entry can be written again. -/
theorem write_filled_again {values : List α} (room : ℕ) {index : ℕ} (value : α)
    (inside : index < values.length) :
    (filled values room).write index value = some (filled (values.set index value) room) := by
  unfold write filled
  have within : index < (values.map some ++ List.replicate room (none : Option α)).length := by
    rw [List.length_append, List.length_map]
    omega
  rw [if_pos within, List.set_append_left _ _ (by rwa [List.length_map]), List.map_set]

end CArray

/-! ## The table of the program -/

/-- The arrays that hold a table. -/
def DistanceTable.ofTally (tally : Tally) (room : ℕ) : DistanceTable where
  allFreqs := .filled (tally.freqs.map Prod.fst) room
  freqFreqs := .filled (tally.freqs.map Prod.snd) room
  freqCount := tally.freqs.length
  mostFreqIndex := tally.mostFreqIndex

/-- The search leaves its index where no entry is the distance. -/
theorem searchFreq_absent {keys : List ℤ} {room : ℕ} {distance : ℤ} (absent : distance ∉ keys)
    {places : List ℕ} (inside : ∀ place ∈ places, place < keys.length) (interesting : ℕ) :
    searchFreq (.filled keys room) distance places interesting = some interesting := by
  induction places with
  | nil => rfl
  | cons place rest hypothesis =>
    have bound := inside place List.mem_cons_self
    have entry : keys[place]? = some keys[place] := List.getElem?_eq_getElem bound
    have other : keys[place] ≠ distance := fun same => absent (same ▸ List.getElem_mem bound)
    rw [searchFreq, CArray.read_filled room entry]
    simp only [Option.bind_eq_bind, Option.bind_some, if_neg other]
    exact hypothesis fun later listed => inside later (List.mem_cons_of_mem place listed)

/-- The search ends at the entry that is the distance. -/
theorem searchFreq_known {keys : List ℤ} {room : ℕ} {distance : ℤ} {place : ℕ}
    (distinct : keys.Nodup) (there : keys[place]? = some distance)
    {places : List ℕ} (inside : ∀ place ∈ places, place < keys.length) (interesting : ℕ) :
    searchFreq (.filled keys room) distance places interesting =
      some (if place ∈ places then place else interesting) := by
  induction places generalizing interesting with
  | nil => rfl
  | cons ii rest hypothesis =>
    have bound := inside ii List.mem_cons_self
    obtain ⟨key, entry⟩ : ∃ key, keys[ii]? = some key := ⟨_, List.getElem?_eq_getElem bound⟩
    rw [searchFreq, CArray.read_filled room entry]
    simp only [Option.bind_eq_bind, Option.bind_some]
    rw [hypothesis fun later listed => inside later (List.mem_cons_of_mem ii listed)]
    by_cases same : key = distance
    · have here : ii = place := by
        rw [same] at entry
        exact (List.getElem?_inj bound distinct).mp (entry.trans there.symm)
      rw [if_pos same, here]
      simp
    · have elsewhere : place ≠ ii := by
        intro here
        rw [← here, there] at entry
        exact same (Option.some.inj entry).symm
      rw [if_neg same]
      simp [elsewhere]

/-- The most frequent distance has its place in the table, the first before there is any. -/
theorem Tally.Of.most_lt {tally : Tally} {seen : List ℤ} (of : tally.Of seen) :
    tally.mostFreqIndex < max 1 tally.freqs.length := by
  by_cases empty : seen = []
  · rw [of.first empty]
    exact Nat.lt_of_lt_of_le Nat.one_pos (Nat.le_max_left _ _)
  · obtain ⟨freq, entry, _⟩ := of.most empty
    exact Nat.lt_of_lt_of_le (List.getElem?_eq_some_iff.mp entry).1 (Nat.le_max_right _ _)

/-- The counts in the array of the program. -/
theorem read_counts (freqs : List (ℤ × ℕ)) (room : ℕ) {place : ℕ} (inside : place < freqs.length) :
    (CArray.filled (freqs.map Prod.snd) room).read place =
      some (Tally.occurrences freqs place) := by
  have entry : freqs[place]? = some freqs[place] := List.getElem?_eq_getElem inside
  apply CArray.read_filled
  rw [List.getElem?_map, Tally.occurrences, entry]
  rfl

/-- The program counts a distance that is not in its table, if there is room for it. -/
theorem DistanceTable.count_new {tally : Tally} {seen : List ℤ} (of : tally.Of seen) (room : ℕ)
    {distance : ℤ} (absent : distance ∉ tally.freqs.map Prod.fst) :
    (ofTally tally (room + 1)).count distance = some (ofTally (tally.count distance) room) := by
  have search : searchFreq (.filled (tally.freqs.map Prod.fst) (room + 1)) distance
      (List.range tally.freqs.length) tally.freqs.length = some tally.freqs.length :=
    searchFreq_absent absent (fun place listed => by
      rw [List.length_map]
      exact List.mem_range.mp listed) _
  have writeKey := CArray.write_filled_next (tally.freqs.map Prod.fst) room distance
  have writeZero := CArray.write_filled_next (tally.freqs.map Prod.snd) room 0
  have readZero : (CArray.filled (tally.freqs.map Prod.snd ++ [0]) room).read tally.freqs.length =
      some 0 := by
    apply CArray.read_filled
    rw [List.getElem?_append_right (by rw [List.length_map]), List.length_map, Nat.sub_self]
    rfl
  have writeOne :
      (CArray.filled (tally.freqs.map Prod.snd ++ [0]) room).write tally.freqs.length 1 =
      some (.filled ((tally.freqs ++ [(distance, 1)]).map Prod.snd) room) := by
    have inside : tally.freqs.length < (tally.freqs.map Prod.snd ++ [0]).length := by
      simp
    rw [CArray.write_filled_again room 1 inside,
      List.set_append_right _ _ (by rw [List.length_map]),
      List.length_map, Nat.sub_self, List.map_append]
    rfl
  have last : tally.freqs.length < (tally.freqs ++ [(distance, 1)]).length := by simp
  have readOne := read_counts (tally.freqs ++ [(distance, 1)]) room last
  have one : Tally.occurrences (tally.freqs ++ [(distance, 1)]) tally.freqs.length = 1 := by
    rw [Tally.occurrences, List.getElem?_append_right (Nat.le_refl _), Nat.sub_self]
    rfl
  have most : tally.mostFreqIndex < (tally.freqs ++ [(distance, 1)]).length := by
    have bound := of.most_lt
    rw [List.length_append, List.length_singleton]
    omega
  have readMost := read_counts (tally.freqs ++ [(distance, 1)]) room most
  have keys : tally.freqs.map Prod.fst ++ [distance] =
      (tally.freqs ++ [(distance, 1)]).map Prod.fst := by simp
  rw [List.length_map] at writeKey writeZero
  rw [keys] at writeKey
  rw [one] at readOne
  rw [Tally.count_new absent]
  simp only [count, ofTally, search, Option.bind_eq_bind, Option.bind_some, decide_true, if_true,
    writeKey, writeZero, readZero, Nat.zero_add, writeOne, readOne, readMost, List.length_append,
    List.length_singleton]

/-- The program counts a distance that is in its table. -/
theorem DistanceTable.count_known {tally : Tally} {seen : List ℤ} (of : tally.Of seen) (room : ℕ)
    {distance : ℤ} (known : distance ∈ tally.freqs.map Prod.fst) :
    (ofTally tally room).count distance = some (ofTally (tally.count distance) room) := by
  obtain ⟨⟨key, occurred⟩, listed, rfl⟩ := List.mem_map.mp known
  obtain ⟨place, there⟩ := List.mem_iff_getElem?.mp listed
  have inside := (List.getElem?_eq_some_iff.mp there).1
  have old : place ≠ tally.freqs.length := by omega
  have keyAt : (tally.freqs.map Prod.fst)[place]? = some key := by
    rw [List.getElem?_map, there]
    rfl
  have search : searchFreq (.filled (tally.freqs.map Prod.fst) room) key
      (List.range tally.freqs.length) tally.freqs.length = some place := by
    rw [searchFreq_known of.distinct keyAt (fun place listed => by
      rw [List.length_map]
      exact List.mem_range.mp listed), if_pos (List.mem_range.mpr inside)]
  have readOld : (CArray.filled (tally.freqs.map Prod.snd) room).read place = some occurred := by
    apply CArray.read_filled
    rw [List.getElem?_map, there]
    rfl
  have writeNext : (CArray.filled (tally.freqs.map Prod.snd) room).write place (occurred + 1) =
      some (.filled ((tally.freqs.set place (key, occurred + 1)).map Prod.snd) room) := by
    rw [CArray.write_filled_again room _ (by rwa [List.length_map]), List.map_set]
  have readNext := read_counts (tally.freqs.set place (key, occurred + 1)) room
    (by rwa [List.length_set])
  have next :
      Tally.occurrences (tally.freqs.set place (key, occurred + 1)) place = occurred + 1 := by
    rw [Tally.occurrences, List.getElem?_set_self inside]
    rfl
  have most : tally.mostFreqIndex < (tally.freqs.set place (key, occurred + 1)).length := by
    have bound := of.most_lt
    rw [List.length_set]
    omega
  have readMost := read_counts (tally.freqs.set place (key, occurred + 1)) room most
  have keys := Tally.keys_set there (occurred + 1)
  rw [next] at readNext
  rw [Tally.count_known of.distinct there]
  simp only [count, ofTally, search, Option.bind_eq_bind, Option.bind_some, eq_false old,
    decide_false,
    Bool.false_eq_true, if_false, readOld, writeNext, readNext, readMost, List.length_set, keys]

end FcTpms.Extractor
