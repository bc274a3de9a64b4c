/-!
# Maps in key order

A finite map is its list of entries, with keys strictly increasing. The order of iteration is
therefore part of the value, and two maps with the same entries are equal.
-/

namespace Bindery

/-- A finite map whose entries stand in strictly increasing key order. -/
structure OrderedMap (κ : Type) (ν : Type) [Ord κ] where
  entries : List (κ × ν)
  increasing : entries.Pairwise fun a b => compare a.1 b.1 = .lt

namespace OrderedMap

variable {κ ν : Type} [Ord κ]

theorem eq_of_entries {m n : OrderedMap κ ν} (h : m.entries = n.entries) : m = n := by
  cases m
  cases n
  cases h
  rfl

def empty : OrderedMap κ ν := ⟨[], .nil⟩

instance : EmptyCollection (OrderedMap κ ν) := ⟨empty⟩

instance : Inhabited (OrderedMap κ ν) := ⟨empty⟩

instance [DecidableEq κ] [DecidableEq ν] : DecidableEq (OrderedMap κ ν) := fun m n =>
  if h : m.entries = n.entries then isTrue (eq_of_entries h)
  else isFalse fun e => h (e ▸ rfl)

def keys (m : OrderedMap κ ν) : List κ := m.entries.map (·.1)

def values (m : OrderedMap κ ν) : List ν := m.entries.map (·.2)

def size (m : OrderedMap κ ν) : Nat := m.entries.length

def get? [DecidableEq κ] (m : OrderedMap κ ν) (key : κ) : Option ν :=
  (m.entries.find? fun e => decide (e.1 = key)).map (·.2)

def contains [DecidableEq κ] (m : OrderedMap κ ν) (key : κ) : Bool := (m.get? key).isSome

/-- Puts an entry in its place in an increasing list; an entry of the same key gives way. -/
def place (key : κ) (value : ν) : List (κ × ν) → List (κ × ν)
  | [] => [(key, value)]
  | entry :: rest =>
    match compare key entry.1 with
    | .lt => (key, value) :: entry :: rest
    | .eq => (key, value) :: rest
    | .gt => entry :: place key value rest

theorem mem_place {key : κ} {value : ν} {l : List (κ × ν)} {e : κ × ν}
    (h : e ∈ place key value l) : e = (key, value) ∨ e ∈ l := by
  induction l with
  | nil => simpa [place] using h
  | cons x rest ih =>
    unfold place at h
    split at h
    · simpa using h
    · rcases List.mem_cons.1 h with h | h
      · exact .inl h
      · exact .inr (List.mem_cons_of_mem _ h)
    · rcases List.mem_cons.1 h with h | h
      · exact .inr (h ▸ List.mem_cons_self)
      · exact (ih h).imp_right (List.mem_cons_of_mem _)

theorem pairwise_place [Std.TransOrd κ] [Std.LawfulEqOrd κ] (key : κ) (value : ν)
    {l : List (κ × ν)} (h : l.Pairwise fun a b => compare a.1 b.1 = .lt) :
    (place key value l).Pairwise fun a b => compare a.1 b.1 = .lt := by
  induction l with
  | nil => simp [place]
  | cons x rest ih =>
    obtain ⟨hx, hrest⟩ := List.pairwise_cons.1 h
    unfold place
    split
    · next hlt =>
      refine List.pairwise_cons.2 ⟨fun e he => ?_, h⟩
      rcases List.mem_cons.1 he with rfl | he
      · exact hlt
      · exact Std.TransCmp.lt_trans hlt (hx e he)
    · next heq =>
      have hkey : key = x.1 := Std.LawfulEqOrd.eq_of_compare heq
      exact List.pairwise_cons.2 ⟨fun e he => hkey ▸ hx e he, hrest⟩
    · next hgt =>
      refine List.pairwise_cons.2 ⟨fun e he => ?_, ih hrest⟩
      rcases mem_place he with rfl | he
      · exact Std.OrientedCmp.lt_of_gt hgt
      · exact hx e he

def insert [Std.TransOrd κ] [Std.LawfulEqOrd κ] (m : OrderedMap κ ν) (key : κ) (value : ν) :
    OrderedMap κ ν :=
  ⟨place key value m.entries, pairwise_place key value m.increasing⟩

/-- Collects entries; of several with one key the last stays. -/
def ofList [Std.TransOrd κ] [Std.LawfulEqOrd κ] (l : List (κ × ν)) : OrderedMap κ ν :=
  l.foldl (fun m e => m.insert e.1 e.2) empty

def erase [DecidableEq κ] (m : OrderedMap κ ν) (key : κ) : OrderedMap κ ν :=
  ⟨m.entries.filter fun e => decide (e.1 ≠ key), m.increasing.filter _⟩

def filter (m : OrderedMap κ ν) (keep : κ → ν → Bool) : OrderedMap κ ν :=
  ⟨m.entries.filter fun e => keep e.1 e.2, m.increasing.filter _⟩

section Laws

variable [DecidableEq κ]

@[simp] theorem get?_empty (key : κ) : (empty : OrderedMap κ ν).get? key = none := rfl

theorem find?_place [Std.LawfulEqOrd κ] (key other : κ) (value : ν) (l : List (κ × ν)) :
    ((place key value l).find? fun e => decide (e.1 = other)).map (·.2) =
      if key = other then some value
      else (l.find? fun e => decide (e.1 = other)).map (·.2) := by
  induction l with
  | nil => by_cases h : key = other <;> simp [place, h]
  | cons x rest ih =>
    unfold place
    split
    · by_cases h : key = other <;> simp [h]
    · next heq =>
      have hkey : key = x.1 := Std.LawfulEqOrd.eq_of_compare heq
      by_cases h : key = other
      · simp [h]
      · have hx : ¬ x.1 = other := hkey ▸ h
        simp [h, hx]
    · next hgt =>
      by_cases hx : x.1 = other
      · have hne : ¬ key = other := by
          rintro rfl
          rw [hx, Std.LawfulEqOrd.compare_eq_iff_eq.2 rfl] at hgt
          cases hgt
        simp [hx, hne]
      · simp only [List.find?_cons, hx, decide_false]
        exact ih

@[simp] theorem get?_insert [Std.TransOrd κ] [Std.LawfulEqOrd κ] (m : OrderedMap κ ν)
    (key other : κ) (value : ν) :
    (m.insert key value).get? other = if key = other then some value else m.get? other :=
  find?_place key other value m.entries

end Laws

end OrderedMap

end Bindery
