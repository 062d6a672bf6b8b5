import Mathlib.Data.Finset.Card
import EvmState.Lib.Lists

/-!
# Least-recently-used caches

A cache of bounded size that makes room by dropping the entry not used for the
longest time. Using an entry is putting it or finding it (`get`); `contains` and
`peek` are no uses.

`History c uses` says that the entries of `c` come from the uses `uses`, the
earliest first. What is still there is then known: a key is, exactly when fewer
distinct keys than there is room for have been used since it last was
(`History.mem_keys_iff`).
-/

/-- A cache: the most recently used entry first, no key twice, within its capacity. -/
structure Lru (κ ν : Type) where
  cap : Nat
  pos : 0 < cap
  entries : List (κ × ν)
  nodup : (entries.map Prod.fst).Nodup
  bounded : entries.length ≤ cap

namespace Lru

variable {κ ν : Type} [DecidableEq κ]

def new (cap : Nat) (pos : 0 < cap) : Lru κ ν := ⟨cap, pos, [], .nil, Nat.zero_le cap⟩

/-- The keys, most recently used first. -/
def keys (c : Lru κ ν) : List κ := c.entries.map Prod.fst

/-- The value of a key, without using it. -/
def peek (c : Lru κ ν) (k : κ) : Option ν := c.entries.lookup k

def contains (c : Lru κ ν) (k : κ) : Bool := (c.peek k).isSome

/-- Put a value at the front; the entry at the back goes if there is no room. -/
def put (c : Lru κ ν) (k : κ) (v : ν) : Lru κ ν where
  cap := c.cap
  pos := c.pos
  entries := ((k, v) :: c.entries.filter (fun e => e.1 ≠ k)).take c.cap
  nodup := by
    rw [List.map_take, List.map_cons]
    refine (List.Nodup.cons ?_ (c.nodup.sublist (List.filter_sublist.map _))).take
    simp
  bounded := List.length_take_le _ _

/-- The value of a key, which this use moves to the front. -/
def get (c : Lru κ ν) (k : κ) : Option ν × Lru κ ν :=
  match c.peek k with
  | some v => (some v, c.put k v)
  | none => (none, c)

/-- Put one value after the other. -/
def putAll (c : Lru κ ν) (l : List (κ × ν)) : Lru κ ν := l.foldl (fun c e => c.put e.1 e.2) c

theorem get_eq (c : Lru κ ν) (k : κ) :
    c.get k = (c.peek k, c.putAll ((c.peek k).map fun v => (k, v)).toList) := by
  unfold get
  cases c.peek k <;> rfl

@[simp] theorem cap_put (c : Lru κ ν) (k : κ) (v : ν) : (c.put k v).cap = c.cap := rfl

theorem peek_eq_some_iff {c : Lru κ ν} {k : κ} {v : ν} : c.peek k = some v ↔ (k, v) ∈ c.entries := by
  obtain ⟨cap, pos, entries, nodup, bounded⟩ := c
  simp only [peek]
  clear bounded
  induction entries with
  | nil => simp
  | cons e l ih =>
      obtain ⟨k', v'⟩ := e
      rw [List.map_cons, List.nodup_cons] at nodup
      rw [List.lookup_cons, List.mem_cons]
      by_cases hk : k = k'
      · subst hk
        have hnot : (k, v) ∉ l := fun h => nodup.1 (List.mem_map.mpr ⟨_, h, rfl⟩)
        simp [hnot, eq_comm]
      · have hk' : (k == k') = false := beq_eq_false_iff_ne.mpr hk
        simp [hk, hk', ih nodup.2]

theorem contains_iff {c : Lru κ ν} {k : κ} : c.contains k = true ↔ k ∈ c.keys := by
  simp only [contains, Option.isSome_iff_exists, peek_eq_some_iff, keys, List.mem_map, Prod.exists,
    exists_and_right, exists_eq_right]

theorem mem_put {c : Lru κ ν} {k : κ} {v : ν} {e : κ × ν} (h : e ∈ (c.put k v).entries) :
    e = (k, v) ∨ e ∈ c.entries := by
  rcases List.mem_cons.mp (List.mem_of_mem_take h) with h | h
  · exact .inl h
  · exact .inr (List.mem_filter.mp h).1

@[simp] theorem peek_put_self (c : Lru κ ν) (k : κ) (v : ν) : (c.put k v).peek k = some v := by
  rw [peek_eq_some_iff]
  simp only [put]
  obtain ⟨n, hn⟩ := Nat.exists_eq_succ_of_ne_zero (Nat.ne_of_gt c.pos)
  rw [hn, List.take_succ_cons]
  exact List.mem_cons_self

/-- A put adds nothing but what is put. -/
theorem of_peek_put {c : Lru κ ν} {k k' : κ} {v v' : ν} (h : (c.put k v).peek k' = some v') :
    (k', v') = (k, v) ∨ c.peek k' = some v' := by
  rw [peek_eq_some_iff] at h ⊢
  exact mem_put h

theorem of_peek_putAll {l : List (κ × ν)} {c : Lru κ ν} {k : κ} {v : ν}
    (h : (c.putAll l).peek k = some v) : (k, v) ∈ l ∨ c.peek k = some v := by
  induction l generalizing c with
  | nil => exact .inr h
  | cons e l ih =>
      rcases ih h with h | h
      · exact .inl (List.mem_cons_of_mem _ h)
      · rcases of_peek_put h with h | h
        · exact .inl (List.mem_cons.mpr (.inl h))
        · exact .inr h

/-- A look at an entry adds nothing. -/
theorem of_peek_get {c : Lru κ ν} {k k' : κ} {v : ν}
    (h : (c.get k).2.peek k' = some v) : c.peek k' = some v := by
  rw [get_eq] at h
  rcases of_peek_putAll h with hm | h
  · rw [Option.mem_toList, Option.map_eq_some_iff] at hm
    obtain ⟨v', hv', heq⟩ := hm
    cases heq
    exact hv'
  · exact h

/-! ## What is still there -/

/-- The distinct keys of a list of uses, the last used first. -/
def recent (uses : List κ) : List κ := uses.foldl (fun ks k => k :: ks.filter (fun k' => k' ≠ k)) []

@[simp] theorem recent_nil : recent ([] : List κ) = [] := rfl

@[simp] theorem recent_concat (uses : List κ) (k : κ) :
    recent (uses ++ [k]) = k :: (recent uses).filter (fun k' => k' ≠ k) := List.foldl_concat ..

theorem mem_recent {uses : List κ} {k : κ} : k ∈ recent uses ↔ k ∈ uses := by
  induction uses using List.reverseRecOn with
  | nil => rfl
  | append_singleton uses x ih =>
      rw [recent_concat, List.mem_cons, List.mem_filter, ih, List.mem_append, List.mem_singleton]
      by_cases h : k = x <;> simp [h]

theorem nodup_recent (uses : List κ) : (recent uses).Nodup := by
  induction uses using List.reverseRecOn with
  | nil => exact .nil
  | append_singleton uses x ih =>
      rw [recent_concat]
      exact .cons (by simp) (ih.filter _)

theorem length_recent (uses : List κ) : (recent uses).length = uses.toFinset.card := by
  rw [← List.toFinset_card_of_nodup (nodup_recent uses)]
  congr 1
  ext k
  simp [mem_recent]

omit [DecidableEq κ] in
theorem takeWhile_filter {p q : κ → Bool} (hpq : ∀ k, p k = false → q k = true) (l : List κ) :
    (l.filter q).takeWhile p = (l.takeWhile p).filter q := by
  induction l with
  | nil => rfl
  | cons k l ih =>
      cases hp : p k with
      | false => simp [hpq k hp, hp]
      | true =>
          cases hq : q k <;> simp [hp, hq, ih]

/-- Ahead of a key stand those used since it last was. -/
theorem takeWhile_recent (uses : List κ) (k : κ) :
    (recent uses).takeWhile (fun k' => k' ≠ k) = recent (Lists.sinceLast (· == k) uses) := by
  induction uses using List.reverseRecOn with
  | nil => rfl
  | append_singleton uses x ih =>
      rw [recent_concat, Lists.sinceLast_concat]
      by_cases h : x = k
      · simp [h]
      · have hfilter : ∀ k', decide (k' ≠ k) = false → decide (k' ≠ x) = true := by
          intro k' hk'
          simp only [ne_eq, decide_not, Bool.not_eq_false', decide_eq_true_eq] at hk'
          simp [hk', Ne.symm h]
        rw [List.takeWhile_cons_of_pos (by simpa using h), takeWhile_filter hfilter, ih,
          if_neg (by simpa using h), recent_concat]

theorem mem_take_iff {l : List κ} {k : κ} {n : Nat} :
    k ∈ l.take n ↔ k ∈ l ∧ (l.takeWhile (fun k' => k' ≠ k)).length < n := by
  induction l generalizing n with
  | nil => simp
  | cons x l ih =>
      cases n with
      | zero => simp
      | succ n =>
          by_cases h : x = k
          · simp [h]
          · simp [ih, h, Ne.symm h]

/-- Dropping one key from the first `n + 1` entries leaves the first `n` of the others. -/
theorem take_filter_take {α : Type} (f : α → κ) {l : List α} (hl : (l.map f).Nodup)
    (k : κ) (n : Nat) :
    ((l.take (n + 1)).filter (fun x => f x ≠ k)).take n
      = (l.filter (fun x => f x ≠ k)).take n := by
  induction l generalizing n with
  | nil => simp
  | cons x l ih =>
      rw [List.map_cons, List.nodup_cons] at hl
      rw [List.take_succ_cons]
      by_cases h : f x = k
      · subst h
        have hself : ∀ l' : List α, l'.Sublist l → l'.filter (fun y => f y ≠ f x) = l' := by
          intro l' hsub
          refine List.filter_eq_self.mpr fun y hy => ?_
          have : f y ≠ f x := fun h => hl.1 (h ▸ List.mem_map_of_mem (hsub.subset hy))
          simp [this]
        rw [List.filter_cons_of_neg (by simp), List.filter_cons_of_neg (by simp),
          hself _ (List.take_sublist n l), hself _ (List.Sublist.refl l), List.take_take,
          Nat.min_self]
      · rw [List.filter_cons_of_pos (by simpa using h), List.filter_cons_of_pos (by simpa using h)]
        cases n with
        | zero => rfl
        | succ n => rw [List.take_succ_cons, List.take_succ_cons, ih hl.2 n]

/-- The entries come from these uses, the earliest first. -/
def History (c : Lru κ ν) (uses : List κ) : Prop := c.keys = (recent uses).take c.cap

theorem history_new (cap : Nat) (pos : 0 < cap) : History (new cap pos : Lru κ ν) [] := by
  simp [History, new, keys]

theorem keys_put (c : Lru κ ν) (k : κ) (v : ν) :
    (c.put k v).keys = (k :: c.keys.filter (fun k' => k' ≠ k)).take c.cap := by
  rw [keys, put, List.map_take, List.map_cons, keys, List.filter_map]
  rfl

theorem History.put {c : Lru κ ν} {uses : List κ} (h : History c uses) (k : κ) (v : ν) :
    History (c.put k v) (uses ++ [k]) := by
  obtain ⟨n, hn⟩ := Nat.exists_eq_succ_of_ne_zero (Nat.ne_of_gt c.pos)
  rw [History, keys_put, h, recent_concat, cap_put, hn, List.take_succ_cons, List.take_succ_cons]
  exact congrArg (k :: ·) (take_filter_take id (by simpa using nodup_recent uses) k n)

theorem cap_putAll (c : Lru κ ν) (l : List (κ × ν)) : (c.putAll l).cap = c.cap := by
  induction l generalizing c with
  | nil => rfl
  | cons e l ih => rw [putAll, List.foldl_cons, ← putAll, ih, cap_put]

theorem History.putAll {c : Lru κ ν} {uses : List κ} (h : History c uses) (l : List (κ × ν)) :
    History (c.putAll l) (uses ++ l.map Prod.fst) := by
  induction l generalizing c uses with
  | nil => simpa [Lru.putAll] using h
  | cons e l ih =>
      rw [List.map_cons, List.append_cons]
      exact ih (h.put e.1 e.2)

/-- **What is still there**: the keys since whose last use fewer others were used than there is room. -/
theorem History.mem_keys_iff {c : Lru κ ν} {uses : List κ} (h : History c uses) {k : κ} :
    k ∈ c.keys ↔ k ∈ uses ∧ (Lists.sinceLast (· == k) uses).toFinset.card < c.cap := by
  rw [h, mem_take_iff, mem_recent, takeWhile_recent, length_recent]

/-! ## Putting what is there already -/

/-- The pairs of a list with the last value of each key, the last put first. -/
def recentEntries (l : List (κ × ν)) : List (κ × ν) :=
  l.foldl (fun es e => e :: es.filter (fun e' => e'.1 ≠ e.1)) []

@[simp] theorem recentEntries_concat (l : List (κ × ν)) (e : κ × ν) :
    recentEntries (l ++ [e]) = e :: (recentEntries l).filter (fun e' => e'.1 ≠ e.1) :=
  List.foldl_concat ..

theorem mem_keys_recentEntries {l : List (κ × ν)} {k : κ} :
    k ∈ (recentEntries l).map Prod.fst ↔ k ∈ l.map Prod.fst := by
  induction l using List.reverseRecOn with
  | nil => rfl
  | append_singleton l e ih =>
      rw [recentEntries_concat, List.map_cons, List.mem_cons, List.map_append, List.mem_append,
        List.map_singleton, List.mem_singleton, ← ih]
      by_cases h : k = e.1
      · simp [h]
      · simp [h]

theorem nodup_recentEntries (l : List (κ × ν)) : ((recentEntries l).map Prod.fst).Nodup := by
  induction l using List.reverseRecOn with
  | nil => exact .nil
  | append_singleton l e ih =>
      rw [recentEntries_concat, List.map_cons]
      exact .cons (by simp) (ih.sublist (List.filter_sublist.map _))

theorem entries_put (c : Lru κ ν) (k : κ) (v : ν) :
    (c.put k v).entries = ((k, v) :: c.entries.filter (fun e => e.1 ≠ k)).take c.cap := rfl

theorem putAll_concat (c : Lru κ ν) (l : List (κ × ν)) (e : κ × ν) :
    c.putAll (l ++ [e]) = (c.putAll l).put e.1 e.2 := List.foldl_concat ..

/-- What was put comes first, and then what it has left room for. -/
theorem entries_putAll (c : Lru κ ν) (l : List (κ × ν)) :
    (c.putAll l).entries
      = (recentEntries l ++ c.entries.filter (fun e => e.1 ∉ l.map Prod.fst)).take c.cap := by
  induction l using List.reverseRecOn with
  | nil =>
      have hall : c.entries.filter (fun e => e.1 ∉ ([] : List (κ × ν)).map Prod.fst) = c.entries :=
        List.filter_eq_self.mpr (by simp)
      rw [hall]
      exact (List.take_of_length_le c.bounded).symm
  | append_singleton l e ih =>
      obtain ⟨n, hn⟩ := Nat.exists_eq_succ_of_ne_zero (Nat.ne_of_gt c.pos)
      have hnodup : ((recentEntries l
          ++ c.entries.filter (fun e' => e'.1 ∉ l.map Prod.fst)).map Prod.fst).Nodup := by
        rw [List.map_append, List.nodup_append]
        refine ⟨nodup_recentEntries l, c.nodup.sublist (List.filter_sublist.map _), ?_⟩
        intro k hk k' hk' heq
        obtain ⟨e', he', rfl⟩ := List.mem_map.mp hk'
        have hout : e'.1 ∉ l.map Prod.fst := by simpa using (List.mem_filter.mp he').2
        exact hout (mem_keys_recentEntries.mp (heq ▸ hk))
      rw [putAll_concat, entries_put, cap_putAll, ih, hn, recentEntries_concat, List.cons_append, List.take_succ_cons,
        List.take_succ_cons, take_filter_take Prod.fst hnodup, List.filter_append,
        List.filter_filter]
      congr 3
      refine List.filter_congr fun e' _ => ?_
      rw [List.map_append, List.map_singleton]
      by_cases h : e'.1 = e.1
      · simp [h]
      · simp only [List.mem_append, List.mem_singleton, h, or_false, ne_eq, not_false_eq_true,
          decide_true, Bool.true_and]

omit [DecidableEq κ] in
theorem ext_entries {c d : Lru κ ν} (hcap : c.cap = d.cap) (h : c.entries = d.entries) : c = d := by
  cases c
  cases d
  obtain rfl : _ = _ := hcap
  obtain rfl : _ = _ := h
  rfl

/-- Puts change nothing exactly if the last of them, as many as there is room for, are at the front. -/
theorem putAll_eq_self_iff {c : Lru κ ν} {l : List (κ × ν)} :
    c.putAll l = c ↔ (recentEntries l).take c.cap <+: c.entries := by
  constructor
  · intro h
    have hentries := entries_putAll c l
    rw [h, List.take_append] at hentries
    rw [hentries]
    exact List.prefix_append _ _
  · intro h
    refine ext_entries (cap_putAll c l) ?_
    rw [entries_putAll]
    by_cases hroom : (recentEntries l).length ≤ c.cap
    · -- they are the front of the cache, and the rest of it has other keys
      rw [List.take_of_length_le hroom] at h
      obtain ⟨rest, hrest⟩ := h
      have hnodup := c.nodup
      rw [← hrest, List.map_append, List.nodup_append] at hnodup
      have hfilter : c.entries.filter (fun e => e.1 ∉ l.map Prod.fst) = rest := by
        rw [← hrest, List.filter_append]
        have hfront : (recentEntries l).filter (fun e => e.1 ∉ l.map Prod.fst) = [] := by
          refine List.filter_eq_nil_iff.mpr fun e he => ?_
          have := mem_keys_recentEntries.mp (List.mem_map_of_mem (f := Prod.fst) he)
          simpa using this
        have hback : rest.filter (fun e => e.1 ∉ l.map Prod.fst) = rest := by
          refine List.filter_eq_self.mpr fun e he => ?_
          have hne : e.1 ∉ l.map Prod.fst := by
            intro hmem
            exact hnodup.2.2 e.1 (mem_keys_recentEntries.mpr hmem) e.1
              (List.mem_map_of_mem he) rfl
          simpa using hne
        rw [hfront, hback, List.nil_append]
      rw [hfilter, hrest, List.take_of_length_le c.bounded]
    · -- they fill the cache
      have hlen : ((recentEntries l).take c.cap).length = c.cap := by
        rw [List.length_take]
        omega
      have hall : (recentEntries l).take c.cap = c.entries :=
        h.eq_of_length_le (by rw [hlen]; exact c.bounded)
      rw [List.take_append_of_le_length (by omega), hall]

end Lru
