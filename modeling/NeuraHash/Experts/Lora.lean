import NeuraHash.Committee.Attestation
import NeuraHash.Python.Matmul

/-!
# Low-rank factors of an expert (`tools/sharddiloco_glm_expert.py`)

A miner trains an adapter of one expert: two factors beside the fused gate and up rows and two beside
the down rows. It selects its best snapshot by a forward pass with the adapter in place, scaled by
`outer`. What it uploads are the factors; the coordinator multiplies them out and merges the product.

The arithmetic is exact here, over any field. `selects_what_merges` says that the forward pass with
the adapter is the one without, over the merged expert, and that the factors the coordinator accepts
multiply out to rows of the right shapes.
-/

namespace NeuraHash.Lora

open Py

/-! ## A layer with adapters -/

/-- The fused experts of one layer: the gate rows over the up rows, and the down rows. -/
structure FusedExperts (R : Type) (E H I : ℕ) where
  gateUpProj : Fin E → Matrix (Fin (I + I)) (Fin H) R
  downProj : Fin E → Matrix (Fin H) (Fin I) R
  actFn : R → R

/-- The parameters of one expert's adapter. -/
structure LoraFactors (R : Type) (H I r : ℕ) where
  A_gu : Matrix (Fin r) (Fin H) R
  B_gu : Matrix (Fin (I + I)) (Fin r) R
  A_d : Matrix (Fin r) (Fin I) R
  B_d : Matrix (Fin H) (Fin r) R

structure LoRAExperts (R : Type) (E H I r : ℕ) where
  base : FusedExperts R E H I
  alpha : R
  outer : R
  /-- `node_of`, with the parameters the constructor gives each of its experts. -/
  adapters : Fin E → Option (ℕ × LoraFactors R H I r)
  enabledNodes : List ℕ

/-- A dense weight delta of one expert. -/
structure DenseDelta (R : Type) where
  gate : Tensor R
  up : Tensor R
  down : Tensor R

namespace LoRAExperts

variable {R : Type} [Field R] {E H I r : ℕ} (le : LoRAExperts R E H I r)

def scale : R := le.alpha / r

/-- The factors that the forward pass adds for an expert: `_lora_on(e)`. -/
def loraOn (e : Fin E) : Option (LoraFactors R H I r) :=
  match le.adapters e with
  | some (node, f) => if node ∈ le.enabledNodes then some f else none
  | none => none

/-- The gate and up rows of one token. -/
def gateUp (e : Fin E) (x : Fin H → R) : Fin (I + I) → R :=
  let gu := (le.base.gateUpProj e).mulVec x
  match le.loraOn e with
  | some f => gu + (le.scale * le.outer) • f.B_gu.mulVec (f.A_gu.mulVec x)
  | none => gu

/-- The down rows of one token. -/
def down (e : Fin E) (h : Fin I → R) : Fin H → R :=
  let dh := (le.base.downProj e).mulVec h
  match le.loraOn e with
  | some f => dh + (le.scale * le.outer) • f.B_d.mulVec (f.A_d.mulVec h)
  | none => dh

/-- What an expert answers to one token. -/
def expert (e : Fin E) (x : Fin H → R) : Fin H → R :=
  let gu := le.gateUp e x
  let gate := fun i : Fin I => gu (Fin.castAdd I i)
  let up := fun i : Fin I => gu (Fin.natAdd I i)
  le.down e fun i => le.base.actFn (gate i) * up i

end LoRAExperts

section forward

variable {R : Type} [Field R] {E H I r T k : ℕ}

/-- `torch.where(em[e])`: the slots and tokens routed to an expert. -/
def routed (topKIndex : Fin T → Fin k → Fin E) (e : Fin E) : List (Fin k × Fin T) :=
  ((List.finRange k).product (List.finRange T)).filter fun p => topKIndex p.2 p.1 = e

/-- `LoRAExperts.forward`. -/
def LoRAExperts.forward (le : LoRAExperts R E H I r) (hiddenStates : Fin T → Fin H → R)
    (topKIndex : Fin T → Fin k → Fin E) (topKWeights : Fin T → Fin k → R) : Fin T → Fin H → R :=
  let hit := (List.finRange E).filter fun e => routed topKIndex e ≠ []
  hit.foldl (fun final e =>
    (routed topKIndex e).foldl (fun final p =>
      let dh := topKWeights p.2 p.1 • le.expert e (hiddenStates p.2)
      Function.update final p.2 (final p.2 + dh)) final) 0

/-- The forward pass sees of the layer what each expert answers. -/
theorem LoRAExperts.forward_congr {r' : ℕ} {le : LoRAExperts R E H I r}
    {le' : LoRAExperts R E H I r'} (h : ∀ e x, le.expert e x = le'.expert e x)
    (hiddenStates : Fin T → Fin H → R) (topKIndex : Fin T → Fin k → Fin E)
    (topKWeights : Fin T → Fin k → R) :
    le.forward hiddenStates topKIndex topKWeights = le'.forward hiddenStates topKIndex topKWeights := by
  unfold LoRAExperts.forward
  simp only [h]

end forward

/-! ## The factors on the wire -/

section payload

variable {R : Type} [Field R] [Inhabited R] {E H I r : ℕ}

/-- The arrays a payload carries. -/
structure LoraPayload (R : Type) where
  A_gu : Tensor R
  B_gu : Tensor R
  A_d : Tensor R
  B_d : Tensor R
  scale : Tensor R

/-- `payload[k]`; the key of a `KeyError` is its text. -/
def payloadItem (payload : Dict String (Tensor R)) (k : String) : Except String (Tensor R) :=
  match payload.get? k with
  | some a => .ok a
  | none => .error ("'" ++ k ++ "'")

def readFactors (payload : Dict String (Tensor R)) : Except String (LoraPayload R) := do
  let A_gu ← payloadItem payload "lora_A_gu"
  let B_gu ← payloadItem payload "lora_B_gu"
  let A_d ← payloadItem payload "lora_A_d"
  let B_d ← payloadItem payload "lora_B_d"
  let scale ← payloadItem payload "lora_scale"
  return ⟨A_gu, B_gu, A_d, B_d, scale⟩

/-- `lora_factors_payload(le, E)`; an expert without an adapter raises `KeyError`. -/
def loraFactorsPayload (le : LoRAExperts R E H I r) (e : Fin E) :
    Except PyErr (Dict String (Tensor R)) :=
  match le.adapters e with
  | some (_, f) => .ok (Dict.ofList [
      ("lora_A_gu", .ofMatrix f.A_gu), ("lora_B_gu", .ofMatrix f.B_gu),
      ("lora_A_d", .ofMatrix f.A_d), ("lora_B_d", .ofMatrix f.B_d),
      ("lora_scale", .ofFn [1] fun _ => le.scale)])
  | none => .error .keyError

def isLoraPayload (d : Dict String (Tensor R)) : Bool := d.size ≠ 0 && d.contains "lora_B_gu"

/-- The checks of `validate_lora_factors` once the arrays are read. -/
def checkFactors (f : LoraPayload R) (I H maxRank : ℕ) : Bool × String :=
  if [f.A_gu, f.B_gu, f.A_d, f.B_d].any (fun a => a.shape.length ≠ 2) then
    (false, "a LoRA factor is not 2-D")
  else if f.scale.size < 1 then (false, "empty lora_scale")
  else
    let r := f.A_gu.shape.headD 0
    if ¬(1 ≤ r ∧ r ≤ maxRank) then
      (false, "rank r=" ++ r.repr ++ " out of [1," ++ maxRank.repr ++ "]")
    else
      let want := [("lora_A_gu", f.A_gu.shape, [r, H]), ("lora_B_gu", f.B_gu.shape, [2 * I, r]),
        ("lora_A_d", f.A_d.shape, [r, I]), ("lora_B_d", f.B_d.shape, [H, r])]
      match want.find? fun w => w.2.1 ≠ w.2.2 with
      | some (k, got, exp) =>
        (false, k ++ " shape " ++ shapeText got ++ " != expected " ++ shapeText exp
          ++ " (resident I=" ++ I.repr ++ " H=" ++ H.repr ++ ")")
      | none => (true, "ok")

/-- `validate_lora_factors(payload, I, H, max_rank)`. -/
def validateLoraFactors (payload : Dict String (Tensor R)) (I H maxRank : ℕ) : Bool × String :=
  if !isLoraPayload payload then (false, "not a LoRA-factor payload")
  else match readFactors payload with
    | .error key => (false, "malformed factor array (" ++ key ++ ")")
    | .ok f => checkFactors f I H maxRank

/-- A product `sc * (B @ A)`. -/
def scaledProduct (sc : R) (B A : Tensor R) : Except PyErr (Tensor R) := do
  return (← B.matmul A).map (sc * ·)

/-- The gate rows, the up rows and the down rows of the two products. -/
def denseDelta (gu dn : Tensor R) : DenseDelta R :=
  let I := gu.shape.headD 0 / 2
  { gate := gu.rows 0 I, up := gu.rows I (gu.shape.headD 0), down := dn }

/-- `materialize_from_lora(payload)`, for factors with two dimensions. -/
def materializeFromLora (payload : Dict String (Tensor R)) : Except PyErr (DenseDelta R) := do
  match readFactors payload with
  | .error _ => .error .keyError
  | .ok f =>
    match f.scale.data with
    | [] => .error (.raised "IndexError")
    | sc :: _ =>
      let gu ← scaledProduct sc f.B_gu f.A_gu
      let dn ← scaledProduct sc f.B_d f.A_d
      return denseDelta gu dn

/-- `_materialize_canonical(le, E)`. -/
def materializeCanonical (le : LoRAExperts R E H I r) (e : Fin E) : Except PyErr (DenseDelta R) :=
  match le.adapters e with
  | some (_, f) =>
    .ok (denseDelta (.ofMatrix (le.scale • (f.B_gu * f.A_gu))) (.ofMatrix (le.scale • (f.B_d * f.A_d))))
  | none => .error .keyError

theorem scaledProduct_ofMatrix {m k n : ℕ} (sc : R) (B : Matrix (Fin m) (Fin k) R)
    (A : Matrix (Fin k) (Fin n) R) :
    scaledProduct sc (.ofMatrix B) (.ofMatrix A) = .ok (.ofMatrix (sc • (B * A))) := by
  unfold scaledProduct
  rw [Tensor.matmul_of_shape (Tensor.shape_ofMatrix B) (Tensor.shape_ofMatrix A), ok_bind,
    Tensor.matrix_ofMatrix, Tensor.matrix_ofMatrix, Tensor.map_ofMatrix]
  rfl

theorem exists_scaledProduct (sc : R) {B A : Tensor R} {m k n : ℕ} (hB : B.shape = [m, k])
    (hA : A.shape = [k, n]) : ∃ t, scaledProduct sc B A = .ok t ∧ t.shape = [m, n] := by
  unfold scaledProduct
  rw [Tensor.matmul_of_shape hB hA, ok_bind]
  exact ⟨_, rfl, rfl⟩

/-! ## What the coordinator accepts -/

omit [Field R] [Inhabited R] in
theorem shapes_of_checkFactors {f : LoraPayload R} {I H maxRank : ℕ}
    (h : (checkFactors f I H maxRank).1 = true) :
    f.scale.size ≠ 0 ∧ ∃ r, f.A_gu.shape = [r, H] ∧ f.B_gu.shape = [2 * I, r]
      ∧ f.A_d.shape = [r, I] ∧ f.B_d.shape = [H, r] := by
  unfold checkFactors at h
  split at h
  · cases h
  split at h
  · cases h
  rename_i hscale
  dsimp only at h
  split at h
  · cases h
  split at h
  · cases h
  rename_i hfind
  refine ⟨by omega, f.A_gu.shape.headD 0, ?_⟩
  rw [List.find?_eq_none] at hfind
  simpa using hfind

/-- **Accepted factors multiply out to the shapes of the expert's rows.** -/
theorem materialize_of_validate {payload : Dict String (Tensor R)} {I H maxRank : ℕ}
    (h : (validateLoraFactors payload I H maxRank).1 = true) :
    ∃ d, materializeFromLora payload = .ok d ∧ d.gate.shape = [I, H] ∧ d.up.shape = [I, H]
      ∧ d.down.shape = [H, I] := by
  unfold validateLoraFactors at h
  split at h
  · cases h
  cases hread : readFactors payload with
  | error key =>
    rw [hread] at h
    cases h
  | ok f =>
    rw [hread] at h
    obtain ⟨hscale, r, hA, hB, hA', hB'⟩ := shapes_of_checkFactors h
    obtain ⟨sc, rest, hdata⟩ : ∃ sc rest, f.scale.data = sc :: rest := by
      apply List.exists_cons_of_ne_nil
      intro hnil
      apply hscale
      rw [Tensor.size, ← f.scale.length_data, hnil, List.length_nil]
    obtain ⟨gu, hgu, hgushape⟩ := exists_scaledProduct sc hB hA
    obtain ⟨dn, hdn, hdnshape⟩ := exists_scaledProduct sc hB' hA'
    refine ⟨denseDelta gu dn, ?_, ?_, ?_, hdnshape⟩
    · unfold materializeFromLora
      rw [hread]
      dsimp only
      rw [hdata]
      dsimp only
      rw [hgu, ok_bind, hdn, ok_bind]
      rfl
    · simp [denseDelta, hgushape]
    · simp only [denseDelta, hgushape, Tensor.shape_rows, List.headD_cons, List.tail_cons]
      congr 1
      omega

/-! ## The merged expert -/

/-- The gate rows over the up rows. -/
def stackRows (gate up : Matrix (Fin I) (Fin H) R) : Matrix (Fin (I + I)) (Fin H) R :=
  fun i j => Fin.append (fun i => gate i j) (fun i => up i j) i

/-- An expert's rows, moved by `s` times a dense delta. -/
def FusedExperts.merged (base : FusedExperts R E H I) (e : Fin E) (s : R) (d : DenseDelta R) :
    FusedExperts R E H I where
  gateUpProj := Function.update base.gateUpProj e
    (base.gateUpProj e + s • stackRows (d.gate.matrix I H) (d.up.matrix I H))
  downProj := Function.update base.downProj e (base.downProj e + s • d.down.matrix H I)
  actFn := base.actFn

/-- The layer with a merged expert and no adapter in place. -/
def LoRAExperts.merged (le : LoRAExperts R E H I r) (e : Fin E) (s : R) (d : DenseDelta R) :
    LoRAExperts R E H I r :=
  { le with base := le.base.merged e s d, enabledNodes := [] }

/-- The delta of two factor products, read back as matrices. -/
theorem matrix_denseDelta (gu : Matrix (Fin (I + I)) (Fin H) R) (dn : Matrix (Fin H) (Fin I) R) :
    stackRows ((denseDelta (.ofMatrix gu) (.ofMatrix dn)).gate.matrix I H)
      ((denseDelta (.ofMatrix gu) (.ofMatrix dn)).up.matrix I H) = gu := by
  have hhalf : (I + I) / 2 = I := by omega
  funext i j
  show Fin.append (fun i => ((Tensor.ofMatrix gu).rows 0 ((I + I) / 2)).matrix I H i j)
    (fun i => ((Tensor.ofMatrix gu).rows ((I + I) / 2) (I + I)).matrix I H i j) i = gu i j
  rw [hhalf]
  refine Fin.addCases (fun i => ?_) (fun i => ?_) i
  · rw [Fin.append_left, Tensor.matrix_rows (Tensor.shape_ofMatrix gu) (Nat.sub_zero I) i j
      (by omega), Tensor.matrix_ofMatrix]
    congr 1
    exact Fin.ext (Nat.zero_add _)
  · rw [Fin.append_right, Tensor.matrix_rows (Tensor.shape_ofMatrix gu) (by omega) i j (by omega),
      Tensor.matrix_ofMatrix]
    rfl

theorem LoRAExperts.loraOn_merged (le : LoRAExperts R E H I r) (e e' : Fin E) (s : R)
    (d : DenseDelta R) : (le.merged e s d).loraOn e' = none := by
  unfold LoRAExperts.loraOn LoRAExperts.merged
  cases le.adapters e' with
  | none => rfl
  | some a => simp

/-- **An adapter in place answers as the merged expert does.** -/
theorem LoRAExperts.expert_merged {le : LoRAExperts R E H I r} {e : Fin E} {f : LoraFactors R H I r}
    (hon : le.loraOn e = some f) (hoff : ∀ e', e' ≠ e → le.loraOn e' = none) (s : R) (e' : Fin E)
    (x : Fin H → R) :
    { le with outer := s }.expert e' x
      = (le.merged e s (denseDelta (.ofMatrix (le.scale • (f.B_gu * f.A_gu)))
        (.ofMatrix (le.scale • (f.B_d * f.A_d))))).expert e' x := by
  set d := denseDelta (.ofMatrix (le.scale • (f.B_gu * f.A_gu)))
    (.ofMatrix (le.scale • (f.B_d * f.A_d))) with hd
  -- the strength of the pass does not say which experts are on
  have hsame : { le with outer := s }.loraOn e' = le.loraOn e' := rfl
  have hgate : ∀ x, { le with outer := s }.gateUp e' x = (le.merged e s d).gateUp e' x := by
    intro x
    unfold LoRAExperts.gateUp
    rw [LoRAExperts.loraOn_merged, hsame]
    by_cases he : e' = e
    · subst he
      rw [hon]
      show _ = (Function.update le.base.gateUpProj e' _ e').mulVec x
      rw [Function.update_self, hd, matrix_denseDelta, Matrix.add_mulVec, Matrix.smul_mulVec,
        Matrix.smul_mulVec, ← Matrix.mulVec_mulVec, smul_smul, mul_comm s]
      rfl
    · rw [hoff e' he]
      show _ = (Function.update le.base.gateUpProj e _ e').mulVec x
      rw [Function.update_of_ne he]
  have hdown : ∀ h, { le with outer := s }.down e' h = (le.merged e s d).down e' h := by
    intro h
    unfold LoRAExperts.down
    rw [LoRAExperts.loraOn_merged, hsame]
    by_cases he : e' = e
    · subst he
      rw [hon]
      show _ = (Function.update le.base.downProj e' _ e').mulVec h
      have hdn : d.down.matrix H I = le.scale • (f.B_d * f.A_d) := Tensor.matrix_ofMatrix _
      rw [Function.update_self, hdn, Matrix.add_mulVec, Matrix.smul_mulVec, Matrix.smul_mulVec,
        ← Matrix.mulVec_mulVec, smul_smul, mul_comm s]
      rfl
    · rw [hoff e' he]
      show _ = (Function.update le.base.downProj e _ e').mulVec h
      rw [Function.update_of_ne he]
  unfold LoRAExperts.expert
  dsimp only
  rw [hgate, hdown]
  rfl

theorem materialize_payload {le : LoRAExperts R E H I r} {e : Fin E} {node : ℕ}
    {f : LoraFactors R H I r} (hf : le.adapters e = some (node, f)) :
    (do materializeFromLora (← loraFactorsPayload le e))
      = .ok (denseDelta (.ofMatrix (le.scale • (f.B_gu * f.A_gu)))
        (.ofMatrix (le.scale • (f.B_d * f.A_d)))) := by
  unfold loraFactorsPayload
  rw [hf]
  dsimp only
  rw [ok_bind]
  unfold materializeFromLora
  have hread : readFactors (Dict.ofList [
      ("lora_A_gu", Tensor.ofMatrix f.A_gu), ("lora_B_gu", .ofMatrix f.B_gu),
      ("lora_A_d", .ofMatrix f.A_d), ("lora_B_d", .ofMatrix f.B_d),
      ("lora_scale", .ofFn [1] fun _ => le.scale)])
      = .ok ⟨.ofMatrix f.A_gu, .ofMatrix f.B_gu, .ofMatrix f.A_d, .ofMatrix f.B_d,
        .ofFn [1] fun _ => le.scale⟩ := by
    rfl
  rw [hread]
  dsimp only
  have hscale : (Tensor.ofFn [1] fun _ => le.scale).data = [le.scale] := rfl
  rw [hscale]
  dsimp only
  rw [scaledProduct_ofMatrix, ok_bind, scaledProduct_ofMatrix, ok_bind]
  rfl

/-- **What the miner selects on is what the coordinator merges.** -/
theorem selects_what_merges (le : LoRAExperts R E H I r) (e : Fin E)
    (hon : ∀ e', (le.loraOn e').isSome = true ↔ e' = e) :
    (∃ d, (do materializeFromLora (← loraFactorsPayload le e)) = .ok d
      ∧ materializeCanonical le e = .ok d
      ∧ ∀ (s : R) {T k : ℕ} (hiddenStates : Fin T → Fin H → R) (topKIndex : Fin T → Fin k → Fin E)
          (topKWeights : Fin T → Fin k → R),
        { le with outer := s }.forward hiddenStates topKIndex topKWeights
          = (le.merged e s d).forward hiddenStates topKIndex topKWeights)
    ∧ ∀ (payload : Dict String (Tensor R)) (I H maxRank : ℕ),
      (validateLoraFactors payload I H maxRank).1 = true →
        ∃ d, materializeFromLora payload = .ok d ∧ d.gate.shape = [I, H] ∧ d.up.shape = [I, H]
          ∧ d.down.shape = [H, I] := by
  refine ⟨?_, fun payload I H maxRank => materialize_of_validate⟩
  obtain ⟨f, hlora⟩ := Option.isSome_iff_exists.mp ((hon e).mpr rfl)
  have hoff : ∀ e', e' ≠ e → le.loraOn e' = none := by
    intro e' hne
    rw [← Option.not_isSome_iff_eq_none]
    exact fun h => hne ((hon e').mp h)
  obtain ⟨node, hf⟩ : ∃ node, le.adapters e = some (node, f) := by
    unfold LoRAExperts.loraOn at hlora
    split at hlora
    · rename_i node f' hf'
      split at hlora
      · rw [Option.some.inj hlora] at hf'
        exact ⟨node, hf'⟩
      · cases hlora
    · cases hlora
  refine ⟨_, materialize_payload hf, ?_, ?_⟩
  · unfold materializeCanonical
    rw [hf]
  · intro s T k hiddenStates topKIndex topKWeights
    refine LoRAExperts.forward_congr (fun e' x => ?_) hiddenStates topKIndex topKWeights
    exact LoRAExperts.expert_merged hlora hoff s e' x

end payload

/-- Two experts of one row each, the first with an adapter. -/
def oneRowLayer : LoRAExperts ℚ 2 1 1 1 where
  base := ⟨fun _ => !![1; 2], fun _ => !![3], fun x => x⟩
  alpha := 2
  outer := 1
  adapters := fun e => if e = 0 then some (0, ⟨!![1], !![4; 5], !![1], !![6]⟩) else none
  enabledNodes := [0]

theorem selects_what_merges_oneRow :
    (∃ d, materializeCanonical oneRowLayer 0 = .ok d
      ∧ { oneRowLayer with outer := 7 / 10 }.forward (T := 1) (fun _ _ => 1) (fun _ => ![0, 1])
          (fun _ _ => 1)
        = (oneRowLayer.merged 0 (7 / 10) d).forward (fun _ _ => 1) (fun _ => ![0, 1]) (fun _ _ => 1))
    ∧ ∃ payload, loraFactorsPayload oneRowLayer 0 = .ok payload
      ∧ (validateLoraFactors payload 1 1 512).1 = true
      ∧ ∃ d, materializeFromLora payload = .ok d ∧ d.gate.shape = [1, 1] := by
  obtain ⟨⟨d, -, hcanonical, hforward⟩, hshapes⟩ := selects_what_merges oneRowLayer 0 (by decide)
  obtain ⟨payload, hpayload, hvalid⟩ : ∃ payload, loraFactorsPayload oneRowLayer 0 = .ok payload
      ∧ (validateLoraFactors payload 1 1 512).1 = true := ⟨_, rfl, rfl⟩
  obtain ⟨d', hd', hgate, -⟩ := hshapes payload 1 1 512 hvalid
  exact ⟨⟨d, hcanonical, hforward _ _ _ _⟩, payload, hpayload, hvalid, d', hd', hgate⟩

end NeuraHash.Lora
