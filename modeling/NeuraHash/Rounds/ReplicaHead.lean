import NeuraHash.Rounds.Authority
import NeuraHash.Settlement.SignedContent

/-!
# What the head of a replica determines

A replica appends the blocks it accepts, so they replay (`process_replays`), and its head is the
hash of its last header. The hash binds the link to the parent and the reward of every header down
to genesis (`NoPositiveReward.of_head`), but not the contributors: an envelope whose contributors
were replaced in transit is accepted all the same (`accept_edit`).

The head therefore determines the balances exactly when no block of it carries a positive reward
(`replicas_determined_iff`).
-/

namespace NeuraHash

open Py

/-! ## Processing envelopes -/

namespace Candidate

/-- One envelope through `accept`; a rejected one changes nothing. -/
def step (P : Platform) (c : Candidate) (m : Json × Election) : Candidate :=
  match c.accept P m.1 m.2 with
  | .ok (.ok c') => c'
  | _ => c

/-- The envelopes a candidate received, in order. -/
def process (P : Platform) (c : Candidate) (msgs : List (Json × Election)) : Candidate :=
  msgs.foldl (step P) c

theorem process_append (P : Platform) (c : Candidate) (msgs : List (Json × Election))
    (m : Json × Election) : c.process P (msgs ++ [m]) = (c.process P msgs).step P m := by
  simp [process]

/-- A replica of the chain with this key and this genesis. -/
structure Replica (P : Platform) (coord : String) (genesis : Json) (c : Candidate) : Prop where
  key : c.chain.coord = coord
  replays : Replays P (.str coord) .coordinatorOnly (State.genesis genesis) zeroHash c.chain.blocks
    c.chain.state c.chain.head

theorem replica_init (P : Platform) (identity coord : String) (genesis : Json) :
    Replica P coord genesis (init identity coord genesis) :=
  ⟨rfl, .nil _ _⟩

/-- **Accepting keeps a replica a replica.** -/
theorem Replica.accept {P : Platform} {coord : String} {genesis : Json} {c c' : Candidate}
    (h : Replica P coord genesis c) {envelope : Json} {e : Election}
    (haccept : c.accept P envelope e = .ok (.ok c')) : Replica P coord genesis c' := by
  obtain ⟨claim, rec, hdr, who, st, head, _, _, _, _, hblock, rfl⟩ := accept_eq_ok.mp haccept
  rw [h.key] at hblock
  exact ⟨h.key, h.replays.snoc hblock⟩

theorem Replica.step {P : Platform} {coord : String} {genesis : Json} {c : Candidate}
    (h : Replica P coord genesis c) (m : Json × Election) :
    Replica P coord genesis (c.step P m) := by
  unfold Candidate.step
  split
  · next c' haccept => exact h.accept haccept
  · exact h

/-- Whatever envelopes arrive, the replica's blocks replay to its state and head. -/
theorem process_replays (P : Platform) (identity coord : String) (genesis : Json)
    (msgs : List (Json × Election)) :
    Replica P coord genesis ((init identity coord genesis).process P msgs) := by
  induction msgs using List.reverseRecOn with
  | nil => exact replica_init P identity coord genesis
  | append_singleton msgs m ih =>
    rw [process_append]
    exact ih.step m

end Candidate

/-! ## The head binds links and rewards -/

section Head

variable {P : Platform} {coord coord' : Json} {policy policy' : QuorumPolicy}

/-- Nothing hashes to the genesis link. -/
def NoZeroDigest (P : Platform) : Prop := ∀ b, P.sha256 b ≠ zeroHash

/-- A replay that ends with a block, cut before it. -/
theorem Replays.last {st st' : State PyFloat} {head head' : String} {recs : List Json} {rec : Json}
    (h : Replays P coord policy st head (recs ++ [rec]) st' head') :
    ∃ st₁ head₁ hdr, Replays P coord policy st head recs st₁ head₁
      ∧ BlockReplayed P coord policy st₁ head₁ rec hdr st' head' := by
  obtain ⟨st₁, head₁, hdr, st₂, head₂, hpre, hblock, hpost⟩ := h.split
  cases hpost
  exact ⟨st₁, head₁, hdr, hpre, hblock⟩

theorem BlockReplayed.head_ne_zero (hzero : NoZeroDigest P) {st st' : State PyFloat}
    {head head' : String} {rec : Json} {hdr : BlockHeader PyFloat}
    (h : BlockReplayed P coord policy st head rec hdr st' head') : head' ≠ zeroHash := by
  obtain ⟨d, _, _, hd⟩ := BlockHeader.hash_eq_ok.mp h.hash
  exact hd ▸ hzero _

/-- **Chains with one head have the same rewards**: the last headers are equal, so the chains
before them have one head too. -/
theorem NoPositiveReward.of_head (hfree : CollisionFree P) (hzero : NoZeroDigest P)
    {st st₁ st₂ : State PyFloat} {head : String} {recs recs' : List Json}
    (h : Replays P coord policy st zeroHash recs st₁ head)
    (h' : Replays P coord' policy' st zeroHash recs' st₂ head)
    (hno : NoPositiveReward P.toPyText recs) : NoPositiveReward P.toPyText recs' := by
  induction recs using List.reverseRecOn generalizing recs' st₁ st₂ head with
  | nil =>
    cases h
    rcases List.eq_nil_or_concat recs' with rfl | ⟨recs', rec', rfl⟩
    · exact fun rec hrec => absurd hrec (List.not_mem_nil)
    · obtain ⟨_, _, _, _, hblock⟩ := (List.concat_eq_append ▸ h').last
      exact absurd rfl (hblock.head_ne_zero hzero)
  | append_singleton recs rec ih =>
    obtain ⟨_, head₁, hdr, hpre, hblock⟩ := h.last
    rcases List.eq_nil_or_concat recs' with rfl | ⟨recs', rec', rfl⟩
    · exact fun rec hrec => absurd hrec (List.not_mem_nil)
    · rw [List.concat_eq_append] at h' ⊢
      obtain ⟨_, head₁', hdr', hpre', hblock'⟩ := h'.last
      obtain ⟨hlink, hreward⟩ := BlockHeader.hash_binds hfree hblock.hash hblock'.hash
      rw [hblock.link, hblock'.link] at hlink
      have hhead : head₁ = head₁' := by simpa [Json.sortKeys] using hlink
      subst hhead
      have hno' := ih hpre hpre' (fun x hx => hno x (List.mem_append_left _ hx))
      intro x hx hdrx hx'
      rcases List.mem_append.mp hx with hx | hx
      · exact hno' x hx hdrx hx'
      · rw [List.mem_singleton.mp hx] at hx'
        rw [hx'.unique hblock'.header, ← hreward]
        exact hno rec (by simp) hdr hblock.header

end Head

/-! ## Envelopes altered in transit -/

section Edit

variable {P : Platform} {c c' t : Candidate} {envelope : Json} {e : Election}

/-- The envelope with the contributors of its block replaced. -/
def editBlock (addr : String) (envelope : Json) : Json :=
  match envelope.getD "block" .null with
  | .ok block => envelope.withMember "block" (withSole addr (block.orElse (.obj [])))
  | .error _ => envelope

theorem getD_withMember {j v default : Json} {k k' : String} (hk : k ≠ k') :
    (j.withMember k v).getD k' default = j.getD k' default := by
  cases j with
  | obj kvs =>
    have h := Json.get?_withMember kvs k k' v
    rw [if_neg hk] at h
    simp only [Json.withMember, Json.get?] at h
    simp only [Json.withMember, Json.getD, Dict.getD, h]
  | _ => rfl

/-- The election check does not read the block. -/
theorem check_withMember (j b : Json) (e : Election) (who : String) :
    e.check P (j.withMember "block" b) who = e.check P j who := by
  cases j with
  | obj kvs =>
    have hget : ∀ k, k ≠ "block" →
        ((Json.obj kvs).withMember "block" b).get? k = (Json.obj kvs).get? k := by
      intro k hk
      rw [Json.get?_withMember, if_neg (Ne.symm hk)]
    have hitem : ((Json.obj kvs).withMember "block" b).item "round" = (Json.obj kvs).item "round" := by
      have := hget "round" (by decide)
      simp only [Json.withMember, Json.get?] at this
      simp only [Json.withMember, Json.item, this]
    have htimeouts : Election.sentTimeouts ((Json.obj kvs).withMember "block" b)
        = Election.sentTimeouts (.obj kvs) := by
      funext v
      unfold Election.sentTimeouts
      rw [getD_withMember (by decide)]
    unfold Election.check Election.checkView
    rw [hget "view" (by decide), hitem, htimeouts]
  | _ => rfl

/-- **An envelope whose contributors were replaced is accepted where the original was.** -/
theorem accept_edit (haccept : c.accept P envelope e = .ok (.ok c')) (hst : c.chain.state.Plain)
    (hcoord : t.chain.coord = c.chain.coord) (hhead : t.chain.head = c.chain.head)
    (ht : t.chain.state.Plain) (addr : String) :
    ∃ t' rec, t.accept P (editBlock addr envelope) e = .ok (.ok t')
      ∧ c'.chain.blocks = c.chain.blocks ++ [rec]
      ∧ t'.chain.blocks = t.chain.blocks ++ [withSole addr rec]
      ∧ t'.chain.head = c'.chain.head := by
  obtain ⟨claim, rec, hdr, who, st, head, ⟨hclaim, b, hb, rfl⟩, hwho, hcheck, hbound, hblock,
    rfl⟩ := accept_eq_ok.mp haccept
  obtain ⟨st', hblock'⟩ := hblock.withSole hst ht addr
  rw [← hcoord, ← hhead] at hblock'
  obtain ⟨j, hj, _⟩ := hblock.header
  obtain ⟨kvs, hkvs⟩ := Json.isObj_of_item hj
  have hedit : editBlock addr envelope
      = envelope.withMember "block" (withSole addr (b.orElse (.obj []))) := by
    rw [editBlock, hb]
  obtain ⟨members, rfl⟩ : ∃ members, envelope = .obj members := by
    cases envelope with
    | obj members => exact ⟨members, rfl⟩
    | _ => cases hb
  have hcarries : Carries (editBlock addr (.obj members)) claim
      (withSole addr (b.orElse (.obj []))) := by
    rw [hedit]
    refine ⟨by rw [getD_withMember (by decide), hclaim], withSole addr (b.orElse (.obj [])), ?_, ?_⟩
    · refine Json.getD_of_item ?_
      rw [Json.item_eq_ok, Json.get?_withMember, if_pos rfl]
    · rw [hkvs, withSole, Json.withMember]
      simp [Json.orElse, Json.truthy]
  have hbound' : Bound P (editBlock addr (.obj members)) claim hdr head := by
    obtain ⟨hhash, hround, hclaimRound⟩ := hbound
    refine ⟨hhash, ?_, hclaimRound⟩
    rw [hedit, getD_withMember (by decide)]
    exact hround
  have hcheck' : e.check P (editBlock addr (.obj members)) who = .ok (.ok ()) := by
    rw [hedit, check_withMember, hcheck]
  exact ⟨_, _, accept_eq_ok.mpr
    ⟨claim, _, hdr, who, st', head, hcarries, hwho, hcheck', hbound', hblock', rfl⟩, rfl, rfl, rfl⟩

/-- Every run can be re-run with replaced contributors, to the same head. -/
theorem exists_process_edit (P : Platform) (identity coord : String) (genesis : Json)
    (msgs : List (Json × Election)) (addr : String) :
    ∃ msgs', ((Candidate.init identity coord genesis).process P msgs').chain.blocks
          = ((Candidate.init identity coord genesis).process P msgs).chain.blocks.map
              (withSole addr)
      ∧ ((Candidate.init identity coord genesis).process P msgs').chain.head
          = ((Candidate.init identity coord genesis).process P msgs).chain.head := by
  induction msgs using List.reverseRecOn with
  | nil => exact ⟨[], rfl, rfl⟩
  | append_singleton msgs m ih =>
    obtain ⟨msgs', hblocks, hhead⟩ := ih
    have hc := Candidate.process_replays P identity coord genesis msgs
    have ht := Candidate.process_replays P identity coord genesis msgs'
    rw [Candidate.process_append]
    unfold Candidate.step
    split
    · next c' haccept =>
      obtain ⟨t', rec, hedit, hrec, hrec', hhead'⟩ := accept_edit haccept
        (hc.replays.plain (State.plain_genesis _)) (ht.key.trans hc.key.symm) hhead
        (ht.replays.plain (State.plain_genesis _)) addr
      refine ⟨msgs' ++ [(editBlock addr m.1, m.2)], ?_, ?_⟩ <;>
        rw [Candidate.process_append, Candidate.step, hedit]
      · rw [hrec', hrec, hblocks, List.map_append]
        rfl
      · exact hhead'
    · exact ⟨msgs', hblocks, hhead⟩

end Edit

/-! ## Determinism by head -/

/-- Two re-runs of a run that minted have its head and different balances. -/
theorem exists_diverging (P : Platform) (identity coord : String) (genesis : Json)
    (msgs : List (Json × Election))
    (hpos : ¬ NoPositiveReward P.toPyText
      ((Candidate.init identity coord genesis).process P msgs).chain.blocks) :
    ∃ msgs₁ msgs₂, ((Candidate.init identity coord genesis).process P msgs₁).chain.head
          = ((Candidate.init identity coord genesis).process P msgs).chain.head
      ∧ ((Candidate.init identity coord genesis).process P msgs₁).chain.head
          = ((Candidate.init identity coord genesis).process P msgs₂).chain.head
      ∧ ¬ ∀ k, ((Candidate.init identity coord genesis).process P msgs₁).chain.state.bal.get? k
          = ((Candidate.init identity coord genesis).process P msgs₂).chain.state.bal.get? k := by
  have hplain := State.plain_genesis genesis
  obtain ⟨msgs₁, hblocks₁, hhead₁⟩ := exists_process_edit P identity coord genesis msgs "a"
  obtain ⟨msgs₂, hblocks₂, hhead₂⟩ := exists_process_edit P identity coord genesis msgs "b"
  have h₁ := (Candidate.process_replays P identity coord genesis msgs₁).replays
  have h₂ := (Candidate.process_replays P identity coord genesis msgs₂).replays
  rw [hblocks₁] at h₁
  rw [hblocks₂] at h₂
  refine ⟨msgs₁, msgs₂, hhead₁, hhead₁.trans hhead₂.symm, fun hsame => ?_⟩
  have hnone := h₂.get?_withSole hplain (show Key.str "a" ≠ .str "b" by decide)
  have hsome := h₁.isSome_withSole hplain (Or.inr ⟨rfl, fun hno => hpos hno.of_withSole⟩)
  rw [hsame (.str "a"), hnone] at hsome
  cases hsome

/-- **The head of a replica determines the balances and the minted amount, exactly when none of its
blocks carries a positive reward**: whatever envelopes the replicas processed. -/
theorem replicas_determined_iff {P : Platform} (hfree : CollisionFree P) (hzero : NoZeroDigest P)
    (identity coord : String) (genesis : Json) (msgs : List (Json × Election)) :
    (∀ id₁ id₂ msgs₁ msgs₂ c₁ c₂,
        (Candidate.init id₁ coord genesis).process P msgs₁ = c₁ →
        (Candidate.init id₂ coord genesis).process P msgs₂ = c₂ →
        c₁.chain.head = ((Candidate.init identity coord genesis).process P msgs).chain.head →
        c₁.chain.head = c₂.chain.head →
        (∀ k, c₁.chain.state.bal.get? k = c₂.chain.state.bal.get? k)
          ∧ c₁.chain.state.minted = c₂.chain.state.minted)
      ↔ NoPositiveReward P.toPyText
          ((Candidate.init identity coord genesis).process P msgs).chain.blocks := by
  have hplain := State.plain_genesis genesis
  constructor
  · intro hdet
    by_contra hpos
    obtain ⟨msgs₁, msgs₂, hhead, hhead', hne⟩ :=
      exists_diverging P identity coord genesis msgs hpos
    exact hne (hdet identity identity msgs₁ msgs₂ _ _ rfl rfl hhead hhead').1
  · rintro hno id₁ id₂ msgs₁ msgs₂ _ _ rfl rfl hhead hhead'
    have hc := Candidate.process_replays P identity coord genesis msgs
    have h₁ := (Candidate.process_replays P id₁ coord genesis msgs₁).replays
    have h₂ := (Candidate.process_replays P id₂ coord genesis msgs₂).replays
    have hno₁ := NoPositiveReward.of_head hfree hzero hc.replays (hhead ▸ h₁) hno
    have hno₂ := NoPositiveReward.of_head hfree hzero h₁ (hhead' ▸ h₂) hno₁
    obtain ⟨hbal₁, hminted₁⟩ := h₁.bal_of_noPositiveReward hplain hno₁
    obtain ⟨hbal₂, hminted₂⟩ := h₂.bal_of_noPositiveReward hplain hno₂
    rw [hbal₁, hbal₂, hminted₁, hminted₂]
    exact ⟨fun _ => rfl, rfl⟩

/-! ## One accepted block -/

/-- A proposed and accepted reward. -/
theorem exists_accepted_reward {P : Platform} {identity coord : String}
    (hsign : CanSign P identity) (hcoord : CanSign P coord) (peer : String) (genesis : Json)
    (hck : genesis.allFinite = true) :
    ∃ msgs, ¬ NoPositiveReward P.toPyText
      ((Candidate.init peer coord genesis).process P msgs).chain.blocks := by
  obtain ⟨c', envelope, hpropose⟩ := exists_propose P (Candidate.init identity coord genesis)
    (State.plain_genesis _) hck 1 1 5 "alice" none 1001 none
  obtain ⟨rec, st, head, hheader, rfl, _⟩ := headerOf_propose hpropose
  obtain ⟨_, _, _, _, _, _, _, _, henvelope⟩ := propose_eq_ok hpropose
  have hcheck : Election.check P ⟨[identity], [], none, none⟩ envelope identity
      = .ok (.ok ()) := by
    have hview : envelope.get? "view" = none := by
      rw [henvelope]
      simp only [Candidate.proposal, Json.get?_obj, List.append_nil, List.reverse_cons,
        List.reverse_nil, List.nil_append, List.cons_append, Dict.lookup, String.reduceEq,
        ↓reduceIte]
    unfold Election.check
    rw [hview]
    simp [electProposer]
  obtain ⟨t', haccept, hchain⟩ := accept_proposal (t := Candidate.init peer coord genesis)
    hsign hcoord hpropose rfl hcheck
  refine ⟨[(envelope, ⟨[identity], [], none, none⟩)], fun hno => ?_⟩
  have hprocess : (Candidate.init peer coord genesis).process P
      [(envelope, ⟨[identity], [], none, none⟩)] = t' := by
    show Candidate.step P _ _ = t'
    rw [Candidate.step, haccept]
  rw [hprocess, hchain] at hno
  have hle : FloatOps.le (FloatOps.max 0 (PyFloat.fin 5)) 0 = true :=
    hno rec (by simp [Candidate.append]) _ hheader
  have h5 : (5 : ℚ) ≤ 0 := by simpa using hle
  norm_num at h5

/-- One accepted reward, and the head determines nothing. -/
theorem replicas_not_determined_of_accepted :
    ∃ msgs, ¬ ∀ id₁ id₂ msgs₁ msgs₂ c₁ c₂,
        (Candidate.init id₁ "coordinator" .null).process Platform.ideal msgs₁ = c₁ →
        (Candidate.init id₂ "coordinator" .null).process Platform.ideal msgs₂ = c₂ →
        c₁.chain.head
          = ((Candidate.init "b" "coordinator" .null).process Platform.ideal msgs).chain.head →
        c₁.chain.head = c₂.chain.head →
        (∀ k, c₁.chain.state.bal.get? k = c₂.chain.state.bal.get? k)
          ∧ c₁.chain.state.minted = c₂.chain.state.minted := by
  obtain ⟨msgs, hpos⟩ := exists_accepted_reward
    (Platform.ideal_idealSigs.canSign (show "a" ∈ _ by simp [Platform.idealKeys]))
    (Platform.ideal_idealSigs.canSign (show "coordinator" ∈ _ by simp [Platform.idealKeys]))
    "b" .null rfl
  exact ⟨msgs, (replicas_determined_iff Platform.ideal_collisionFree
    (fun _ => Platform.ideal_sha256_ne (by decide)) "b" "coordinator" .null msgs).not.mpr hpos⟩

/-- One envelope, altered in transit in two ways: two replicas with one head, and different
balances. -/
theorem not_head_determines_state :
    ¬ ∀ (P : Platform) (keys : Set String) (id₁ id₂ coord : String) (genesis : Json)
        (msgs₁ msgs₂ : List (Json × Election)) (c₁ c₂ : Candidate),
      CollisionFree P → NoZeroDigest P → IdealSigs P keys → id₁ ∈ keys → id₂ ∈ keys →
      coord ∈ keys → (Candidate.init id₁ coord genesis).process P msgs₁ = c₁ →
      (Candidate.init id₂ coord genesis).process P msgs₂ = c₂ → c₁.chain.head = c₂.chain.head →
      (∀ k, c₁.chain.state.bal.get? k = c₂.chain.state.bal.get? k)
        ∧ c₁.chain.state.minted = c₂.chain.state.minted := by
  intro hclaim
  have ha : "a" ∈ Platform.idealKeys := by simp [Platform.idealKeys]
  have hcoord : "coordinator" ∈ Platform.idealKeys := by simp [Platform.idealKeys]
  obtain ⟨msgs, hpos⟩ := exists_accepted_reward (Platform.ideal_idealSigs.canSign ha)
    (Platform.ideal_idealSigs.canSign hcoord) "a" .null rfl
  obtain ⟨msgs₁, msgs₂, _, hhead, hne⟩ :=
    exists_diverging Platform.ideal "a" "coordinator" .null msgs hpos
  exact hne (hclaim Platform.ideal Platform.idealKeys "a" "a" "coordinator" .null msgs₁ msgs₂ _ _
    Platform.ideal_collisionFree (fun _ => Platform.ideal_sha256_ne (by decide))
    Platform.ideal_idealSigs ha ha hcoord rfl rfl hhead).1

end NeuraHash
