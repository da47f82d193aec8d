import NeuraHash.Miner.Names
import NeuraHash.Systems.Heaviest

/-!
# Choosing coordinates by affinity (`esft_select`, `esft_select_layers`)

A probe scores the coordinates a node can host. `esft_select` takes the best ones until their scores
reach the threshold `p`. Scores are exact here, of any sign.

`esft_select_minimum` says that no smaller set of coordinates reaches the threshold, and that all
are taken where none does.
-/

namespace NeuraHash

open Py

variable {F : Type} [AddCommGroup F] [LinearOrder F]

/-- The key a score is sorted by: descending score, then the coordinate. -/
def affinityKey (kv : Coord × F) : F ×ₗ (ℤ ×ₗ ℤ) := toLex (-kv.2, toLex kv.1)

/-- `items.sort(key=lambda kv: (-float(kv[1]), tuple(kv[0])))`. -/
def sortedScores (scores : List (Coord × F)) : List (Coord × F) :=
  scores.insertionSort fun a b => affinityKey a ≤ affinityKey b

/-- `esft_select(scores, p)`. -/
def esftSelect (scores : List (Coord × F)) (p : F) : List Coord :=
  if p ≤ 0 then [] else (Heaviest.reach Prod.snd p 0 (sortedScores scores)).map Prod.fst

/-- The scores of one layer. -/
def scoresOfLayer (scores : List (Coord × F)) (L : ℤ) : List (Coord × F) :=
  scores.filter fun kv => kv.1.1 = L

/-- `esft_select_layers(scores, p)`. -/
def esftSelectLayers (scores : List (Coord × F)) (p : F) : List Coord :=
  ((sortedSet (scores.map fun kv => kv.1.1)).flatMap fun L =>
    esftSelect (scoresOfLayer scores L) p).insertionSort fun a b => toLex a ≤ toLex b

/-- The score of a coordinate. -/
def scoreOf (scores : List (Coord × F)) (c : Coord) : F := (Dict.lookup c scores).getD 0

/-- What a set of coordinates scores together. -/
def totalScore (scores : List (Coord × F)) (S : Finset Coord) : F := ∑ c ∈ S, scoreOf scores c

/-- The coordinates, the best first. -/
def descendingCoords (scores : List (Coord × F)) : List Coord := (sortedScores scores).map Prod.fst

section Select

variable {scores : List (Coord × F)} {p : F}

theorem mem_sortedScores {kv : Coord × F} : kv ∈ sortedScores scores ↔ kv ∈ scores :=
  List.mem_insertionSort _

theorem descendingCoords_perm : (descendingCoords scores).Perm (scores.map Prod.fst) :=
  (List.perm_insertionSort _ _).map _

theorem esftSelect_subset {c : Coord} (hc : c ∈ esftSelect scores p) : ∃ kv ∈ scores, kv.1 = c := by
  unfold esftSelect at hc
  split at hc
  · cases hc
  · obtain ⟨kv, hkv, rfl⟩ := List.mem_map.mp hc
    exact ⟨kv, mem_sortedScores.mp ((Heaviest.reach_prefix _ _).subset hkv), rfl⟩

/-- A coordinate is chosen when it is chosen among the scores of its own layer. -/
theorem mem_esftSelectLayers {c : Coord} :
    c ∈ esftSelectLayers scores p ↔ c ∈ esftSelect (scoresOfLayer scores c.1) p := by
  unfold esftSelectLayers
  rw [List.mem_insertionSort, List.mem_flatMap]
  constructor
  · rintro ⟨L, -, hc⟩
    obtain ⟨kv, hkv, rfl⟩ := esftSelect_subset hc
    have hL : kv.1.1 = L := by simpa using (List.mem_filter.mp hkv).2
    rwa [hL]
  · intro hc
    refine ⟨c.1, ?_, hc⟩
    obtain ⟨kv, hkv, rfl⟩ := esftSelect_subset hc
    rw [mem_sortedSet]
    exact List.mem_map.mpr ⟨kv, (List.mem_filter.mp hkv).1, rfl⟩

variable (hd : (scores.map Prod.fst).Nodup)

include hd

theorem scoreOf_mem {kv : Coord × F} (hkv : kv ∈ scores) : scoreOf scores kv.1 = kv.2 := by
  unfold scoreOf
  rw [Dict.lookup_eq_some_of_mem hd hkv]
  rfl

theorem nodup_descendingCoords : (descendingCoords scores).Nodup :=
  descendingCoords_perm.nodup_iff.mpr hd

theorem esftSelect_eq (hp : 0 < p) :
    esftSelect scores p = Heaviest.reach (scoreOf scores) p 0 (descendingCoords scores) := by
  unfold esftSelect descendingCoords
  rw [if_neg (not_le.mpr hp)]
  exact Heaviest.reach_map fun kv hkv => scoreOf_mem hd (mem_sortedScores.mp hkv)

theorem totalScore_of_front {l : List Coord} (hl : l <+: descendingCoords scores) :
    totalScore scores l.toFinset = (l.map (scoreOf scores)).sum :=
  List.sum_toFinset _ (hl.sublist.nodup (nodup_descendingCoords hd))

variable [IsOrderedAddMonoid F]

theorem descending_scores :
    ((descendingCoords scores).map (scoreOf scores)).Pairwise (· ≥ ·) := by
  unfold descendingCoords
  rw [List.map_map, List.pairwise_map]
  let le (a b : Coord × F) : Prop := affinityKey a ≤ affinityKey b
  haveI : Std.Total le := ⟨fun a b => le_total (affinityKey a) (affinityKey b)⟩
  haveI : IsTrans (Coord × F) le := ⟨fun _ _ _ => le_trans⟩
  have hsorted : (sortedScores scores).Pairwise le := List.pairwise_insertionSort le scores
  refine hsorted.imp_of_mem fun {a b} ha hb hab => ?_
  show scoreOf scores b.1 ≤ scoreOf scores a.1
  rw [scoreOf_mem hd (mem_sortedScores.mp ha), scoreOf_mem hd (mem_sortedScores.mp hb)]
  exact neg_le_neg_iff.mp (Prod.Lex.monotone_fst _ _ hab)

/-- **The selection is a minimum set** that reaches the threshold. -/
theorem esft_select_minimum (hp : 0 < p) :
    (descendingCoords scores).Perm (scores.map Prod.fst) ∧
    ((descendingCoords scores).map (scoreOf scores)).Pairwise (· ≥ ·) ∧
    esftSelect scores p <+: descendingCoords scores ∧
    (p ≤ totalScore scores (esftSelect scores p).toFinset ∧
        (∀ S : Finset Coord, (∀ c ∈ S, c ∈ scores.map Prod.fst) →
          S.card < (esftSelect scores p).length → totalScore scores S < p) ∨
      esftSelect scores p = descendingCoords scores ∧
        ∀ front, front <+: descendingCoords scores → totalScore scores front.toFinset < p) := by
  have hprefix : esftSelect scores p <+: descendingCoords scores := by
    rw [esftSelect_eq hd hp]
    exact Heaviest.reach_prefix _ _
  refine ⟨descendingCoords_perm, descending_scores hd, hprefix, ?_⟩
  rw [totalScore_of_front hd hprefix, esftSelect_eq hd hp]
  rcases Heaviest.reach_cases (w := scoreOf scores) (l := descendingCoords scores) hp with
    hreached | ⟨hall, hshort⟩
  · refine .inl ⟨by simpa using hreached, fun S hS hcard => ?_⟩
    have hmem : ∀ c ∈ S, c ∈ descendingCoords scores := fun c hc =>
      descendingCoords_perm.mem_iff.mpr (hS c hc)
    exact Heaviest.sum_lt_of_card_lt (descending_scores hd) (nodup_descendingCoords hd) hp hmem
      hcard
  · refine .inr ⟨hall, fun front hfront => ?_⟩
    have hlt := hshort front.length
    rw [zero_add, ← List.prefix_iff_eq_take.mp hfront] at hlt
    rwa [totalScore_of_front hd hfront]

end Select

/-- Three coordinates, one of them with a negative score. -/
def threeScores : List (Coord × ℚ) := [((1, 0), 1 / 5), ((1, 1), -1), ((1, 2), 1 / 2)]

theorem esft_select_minimum_three :
    esftSelect threeScores (3 / 5) <+: descendingCoords threeScores ∧
      ∀ S : Finset Coord, (∀ c ∈ S, c ∈ threeScores.map Prod.fst) → S.card < 2 →
        totalScore threeScores S < 3 / 5 := by
  have hmain := @esft_select_minimum ℚ _ _ threeScores (3 / 5) (by decide) _ (by norm_num)
  refine ⟨hmain.2.2.1, ?_⟩
  have hlength : (esftSelect threeScores (3 / 5)).length = 2 := by decide +kernel
  rcases hmain.2.2.2 with ⟨-, hsmaller⟩ | ⟨hall, -⟩
  · rwa [hlength] at hsmaller
  · rw [hall] at hlength
    exact absurd hlength (by decide +kernel)

end NeuraHash
