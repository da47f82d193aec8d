import NeuraHash.Python.JsonText

/-!
# Names on the lane (`tools/sharddiloco_glm_contributor.py`)

The lane stores objects under names. A campaign's records live under its own prefix, or under the
flat one where the coordinator set no campaign. Within one campaign a contribution's name
determines its base event and its counter (`asyncPublishName_inj`), and an accepted record's name
its event (`acceptedName_inj`).
-/

namespace NeuraHash

open Py

/-- A `(layer, expert)` coordinate. -/
abbrev Coord := ℤ × ℤ

/-- A character of `[0-9a-f]`. -/
def isLowerHex (c : Char) : Bool := c.isDigit || ('a' ≤ c && c ≤ 'f')

/-- What `normalize_campaign_id` lets through. -/
structure CampaignId where
  text : String
  isHex : ∀ c ∈ text.toList, isLowerHex c = true
  length : 8 ≤ text.length ∧ text.length ≤ 64

def contribPrefix (campaign : Option CampaignId) (rnd : ℤ) : String :=
  match campaign with
  | none => "cg/r" ++ rnd.repr ++ "/"
  | some cid => "cg/" ++ cid.text ++ "/r" ++ rnd.repr ++ "/"

def contribName (campaign : Option CampaignId) (rnd : ℤ) (miner : String) : String :=
  contribPrefix campaign rnd ++ miner

def asyncPublishName (campaign : Option CampaignId) (baseEvent : ℤ) (miner : String) (k : ℕ) :
    String :=
  contribName campaign baseEvent miner ++ "." ++ k.repr

def acceptedPrefix (campaign : Option CampaignId) : String :=
  match campaign with
  | none => "sharddiloco/glm/accepted/r"
  | some cid => "sharddiloco/glm/accepted/" ++ cid.text ++ "/r"

def acceptedName (campaign : Option CampaignId) (rnd : ℤ) : String :=
  acceptedPrefix campaign ++ rnd.repr

/-- `"%d_%d" % (L, E)`. -/
def coordKey (c : Coord) : String := c.1.repr ++ "_" ++ c.2.repr

/-! ## What a name says -/

/-- A numeral is told from what follows it by a character that no numeral has. -/
theorem numeral_append_inj {m n : ℤ} {c : Char} {l l' : List Char} (hc : numericChar c = false)
    (h : m.repr.toList ++ c :: l = n.repr.toList ++ c :: l') : m = n ∧ l = l' := by
  have hsplit : ∀ a b : List Char, (∀ x ∈ a, numericChar x = true) →
      (∀ x ∈ b, numericChar x = true) → a ++ c :: l = b ++ c :: l' → a = b ∧ l = l' := by
    intro a
    induction a with
    | nil =>
      intro b _ hb heq
      cases b with
      | nil => exact ⟨rfl, (List.cons.inj heq).2⟩
      | cons x b =>
        have hx := hb x (List.mem_cons_self ..)
        rw [← (List.cons.inj heq).1, hc] at hx
        cases hx
    | cons x a ih =>
      intro b ha hb heq
      cases b with
      | nil =>
        have hx := ha x (List.mem_cons_self ..)
        rw [(List.cons.inj heq).1, hc] at hx
        cases hx
      | cons y b =>
        obtain ⟨rfl, htail⟩ := List.cons.inj heq
        obtain ⟨rfl, hl⟩ := ih b (fun z hz => ha z (List.mem_cons_of_mem _ hz))
          (fun z hz => hb z (List.mem_cons_of_mem _ hz)) htail
        exact ⟨rfl, hl⟩
  obtain ⟨heq, hl⟩ := hsplit _ _ (fun _ => Json.mem_intText) (fun _ => Json.mem_intText) h
  exact ⟨Json.int_repr_injective (String.toList_injective heq), hl⟩

theorem asyncPublishName_inj {campaign : Option CampaignId} {b b' : ℤ} {miner : String}
    {k k' : ℕ} (h : asyncPublishName campaign b miner k = asyncPublishName campaign b' miner k') :
    b = b' ∧ k = k' := by
  -- the names share what stands before the base event
  have hnames : b.repr.toList ++ '/' :: (miner.toList ++ '.' :: k.repr.toList)
      = b'.repr.toList ++ '/' :: (miner.toList ++ '.' :: k'.repr.toList) := by
    have htext := congrArg String.toList h
    unfold asyncPublishName contribName contribPrefix at htext
    cases campaign <;> simpa [String.toList_append] using htext
  obtain ⟨hb, htail⟩ := numeral_append_inj (by decide) hnames
  refine ⟨hb, Nat.repr_injective (String.toList_injective ?_)⟩
  exact (List.cons.inj (List.append_cancel_left htail)).2

theorem acceptedName_inj {campaign : Option CampaignId} {e e' : ℤ}
    (h : acceptedName campaign e = acceptedName campaign e') : e = e' := by
  have htext := congrArg String.toList h
  unfold acceptedName at htext
  rw [String.toList_append, String.toList_append] at htext
  exact Json.int_repr_injective (String.toList_injective (List.append_cancel_left htext))

theorem coordKey_inj {c c' : Coord} (h : coordKey c = coordKey c') : c = c' := by
  have htext := congrArg String.toList h
  have hnames : c.1.repr.toList ++ '_' :: c.2.repr.toList
      = c'.1.repr.toList ++ '_' :: c'.2.repr.toList := by
    unfold coordKey at htext
    simpa [String.toList_append] using htext
  obtain ⟨hlayer, htail⟩ := numeral_append_inj (by decide) hnames
  exact Prod.ext hlayer (Json.int_repr_injective (String.toList_injective htail))

end NeuraHash
