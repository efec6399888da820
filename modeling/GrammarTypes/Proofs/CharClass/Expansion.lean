import GrammarTypes.Proofs.CharClass.Listing
import GrammarTypes.Proofs.Derivation.Result
import GrammarTypes.Proofs.Outcome
import GrammarTypes.Proofs.Ty.Union
import Mathlib.Data.List.Forall2

/-!
# The expansion of a character class

The parts of a class are expanded one after another while there is room. `CharClass.Fits` says that
there is room for all of them, and which texts they list together. The expansion of a class succeeds
exactly when its parts fit (`expand_eq_some_iff`), and it fails exactly when a malformed range comes
after parts that fit (`expand_eq_error_iff`); otherwise a part without room has ended it. More room
keeps what fits, so that neither outcome changes with the limit once it is reached.

There is room for a part when there is room for what it is charged for. Since that can be more than
it lists, a class can be too wide for a limit that is not less than the number of its texts. This
happens exactly when a range that spans the surrogates leaves the limit behind with what is listed
up to it and the surrogates (`Overcharged`, `exists_fits_iff`).
-/

namespace GrammarTypes

namespace CharClass

/-! ## Parts that fit -/

/-- The parts list the given texts, and there is room for each part when those before it have been
expanded. -/
inductive Fits : Nat → List ClassPart → List String → Prop
  /-- There is always room for no parts. -/
  | nil (room : Nat) : Fits room [] []
  /-- A part needs room for what it is charged for, and takes it for what it lists. -/
  | cons {room : Nat} {part : ClassPart} {parts : List ClassPart} {texts rest : List String} :
    Lists part texts → demand part ≤ room → Fits (room - texts.length) parts rest →
      Fits room (part :: parts) (texts ++ rest)

variable {room room' : Nat} {part : ClassPart} {parts : List ClassPart} {texts texts' : List String}
  {lower upper : String} {listings : List (List String)}

/-- What a part lists is determined by the part. -/
theorem Lists.unique (h : Lists part texts) (h' : Lists part texts') : texts = texts' := by
  cases part with
  | char value =>
    cases h
    cases h'
    rfl
  | range lower upper =>
    cases hends : endpoints? lower upper with
    | none => exact absurd h ((endpoints?_eq_none_iff.1 hends).not_lists texts)
    | some ends => rw [(lists_range_iff hends).1 h, (lists_range_iff hends).1 h']

/-- Parts that fit still fit when there is more room. -/
theorem Fits.mono (h : Fits room parts texts) (hroom : room ≤ room') : Fits room' parts texts := by
  induction h generalizing room' with
  | nil room => exact .nil room'
  | cons hlists hdemand _ ih =>
    exact .cons hlists (hdemand.trans hroom) (ih (Nat.sub_le_sub_right hroom _))

/-- The texts of parts that fit are those that the parts list one after another. -/
theorem Fits.exists_listings (h : Fits room parts texts) :
    ∃ listings, List.Forall₂ Lists parts listings ∧ texts = listings.flatten := by
  induction h with
  | nil room => exact ⟨[], .nil, rfl⟩
  | @cons _ part _ texts _ hlists _ _ ih =>
    obtain ⟨listings, hall, rfl⟩ := ih
    exact ⟨texts :: listings, .cons hlists hall, rfl⟩

/-- Parts that fit list something each. -/
theorem Fits.lists (h : Fits room parts texts) : ∀ p ∈ parts, ∃ ts, Lists p ts := by
  induction h with
  | nil room => exact fun p hp => nomatch hp
  | @cons _ _ _ texts _ hlists _ _ ih => exact List.forall_mem_cons.2 ⟨⟨texts, hlists⟩, ih⟩

/-! ## What is charged for and what is listed -/

/-- A range that spans the surrogates needs more room than the limit leaves when it is charged for
the surrogates. -/
def Overcharged (limit : Nat) (parts : List ClassPart) (listings : List (List String)) : Prop :=
  ∃ k part, parts[k]? = some part ∧ SpansSurrogates part ∧
    limit < (listings.take (k + 1)).flatten.length + surrogateCount

/-- A range is charged too much at the head of the parts or after it. -/
theorem overcharged_cons :
    Overcharged room (part :: parts) (texts :: listings) ↔
      (SpansSurrogates part ∧ room < texts.length + surrogateCount) ∨
        ∃ k p, parts[k]? = some p ∧ SpansSurrogates p ∧
          room < texts.length + (listings.take (k + 1)).flatten.length + surrogateCount := by
  constructor
  · rintro ⟨_ | k, p, hp, hspans, hroom⟩
    · obtain rfl := Option.some.inj hp
      refine .inl ⟨hspans, ?_⟩
      simpa using hroom
    · refine .inr ⟨k, p, hp, hspans, ?_⟩
      rwa [List.take_succ_cons, List.flatten_cons, List.length_append] at hroom
  · rintro (⟨hspans, hroom⟩ | ⟨k, p, hp, hspans, hroom⟩)
    · refine ⟨0, part, rfl, hspans, ?_⟩
      simpa using hroom
    · refine ⟨k + 1, p, hp, hspans, ?_⟩
      rwa [List.take_succ_cons, List.flatten_cons, List.length_append]

/-- There is room for what a part is charged for when there is room for what it lists, and for the
surrogates too if it spans them. -/
theorem Lists.demand_le_iff (h : Lists part texts) :
    demand part ≤ room ↔
      texts.length ≤ room ∧ ¬ (SpansSurrogates part ∧ room < texts.length + surrogateCount) := by
  obtain ⟨hspans, hplain⟩ := h.demand_eq
  by_cases hs : SpansSurrogates part
  · rw [hspans hs, and_iff_right hs]
    omega
  · rw [hplain hs, and_iff_left fun hroom => hs hroom.1]

/-- Well-formed parts fit exactly when there is room for the texts that they list and no range is
charged too much. -/
theorem exists_fits_iff (room : Nat) (h : List.Forall₂ Lists parts listings) :
    (∃ texts, Fits room parts texts) ↔
      listings.flatten.length ≤ room ∧ ¬ Overcharged room parts listings := by
  induction h generalizing room with
  | nil =>
    refine iff_of_true ⟨[], .nil room⟩ ⟨Nat.zero_le room, ?_⟩
    rintro ⟨k, part, hpart, -⟩
    exact nomatch hpart
  | @cons part texts parts listings hlists _ ih =>
    -- With room for what the part lists, what is left decides about the others.
    have hrest (hle : texts.length ≤ room) : (∃ rest, Fits (room - texts.length) parts rest) ↔
        listings.flatten.length ≤ room - texts.length ∧ ¬ ∃ k p, parts[k]? = some p ∧
          SpansSurrogates p ∧
            room < texts.length + (listings.take (k + 1)).flatten.length + surrogateCount := by
      rw [ih, Overcharged]
      refine and_congr_right fun _ => not_congr ?_
      refine exists_congr fun k => exists_congr fun p => and_congr_right fun _ =>
        and_congr_right fun _ => ?_
      omega
    rw [overcharged_cons, not_or, List.flatten_cons, List.length_append]
    constructor
    · rintro ⟨_, _ | @⟨_, _, _, _, rest, hlists', hdemand, hfits⟩⟩
      obtain rfl := hlists'.unique hlists
      obtain ⟨hle, hhead⟩ := hlists.demand_le_iff.1 hdemand
      obtain ⟨hcount, hothers⟩ := (hrest hle).1 ⟨rest, hfits⟩
      exact ⟨by omega, hhead, hothers⟩
    · rintro ⟨hcount, hhead, hothers⟩
      have hle : texts.length ≤ room := by omega
      obtain ⟨rest, hfits⟩ := (hrest hle).2 ⟨by omega, hothers⟩
      exact ⟨_, .cons hlists (hlists.demand_le_iff.2 ⟨hle, hhead⟩) hfits⟩

/-! ## What the expansion does -/

/-- A part that lists texts is expanded to them if there is room for what it is charged for. -/
theorem expand_cons_of_lists (h : Lists part texts) :
    expand room (part :: parts) =
      if room < demand part then .ok none
      else (expand (room - texts.length) parts).map (Option.map (texts ++ ·)) := by
  cases part with
  | char value =>
    cases h
    simp only [expand, demand, Nat.lt_one_iff, List.length_singleton, List.singleton_append]
  | range lower upper =>
    cases hends : endpoints? lower upper with
    | none => exact absurd h ((endpoints?_eq_none_iff.1 hends).not_lists texts)
    | some ends =>
      obtain rfl := (lists_range_iff hends).1 h
      simp only [expand, demand, hends]

/-- A malformed range ends the expansion with a failure. -/
theorem expand_cons_of_malformed (h : Malformed lower upper) :
    expand room (.range lower upper :: parts) = .error (lower, upper) := by
  rw [expand, endpoints?_eq_none_iff.2 h]

/-- The expansion of a class succeeds exactly when its parts fit. -/
theorem expand_eq_some_iff : expand room parts = .ok (some texts) ↔ Fits room parts texts := by
  induction parts generalizing room texts with
  | nil =>
    constructor
    · intro h
      cases h
      exact .nil room
    · rintro ⟨⟩
      rfl
  | cons part parts ih =>
    rcases lists_or_malformed part with ⟨ts, hts⟩ | ⟨lower, upper, rfl, hmalformed⟩
    · rw [expand_cons_of_lists hts]
      split
      · next hroom =>
        refine iff_of_false nofun ?_
        rintro (_ | ⟨-, hdemand, -⟩)
        omega
      · next hroom =>
        constructor
        · intro h
          obtain ⟨listed, hlisted, hmap⟩ := Except.map_eq_ok_iff.1 h
          obtain ⟨rest, rfl, rfl⟩ := Option.map_eq_some_iff.1 hmap
          exact .cons hts (by omega) (ih.1 hlisted)
        · rintro (_ | ⟨hts', -, hrest⟩)
          obtain rfl := hts'.unique hts
          rw [ih.2 hrest]
          rfl
    · rw [expand_cons_of_malformed hmalformed]
      refine iff_of_false nofun fun hfits => ?_
      obtain ⟨ts, hts⟩ := hfits.lists _ List.mem_cons_self
      exact hmalformed.not_lists ts hts

/-- The expansion of parts that all list something does not fail. -/
theorem expand_ne_error (h : List.Forall₂ Lists parts listings) (range : String × String) :
    expand room parts ≠ .error range := by
  induction h generalizing room with
  | nil => exact nofun
  | cons hlists _ ih =>
    rw [expand_cons_of_lists hlists]
    split
    · exact nofun
    · exact fun herror => ih (Except.map_eq_error_iff.1 herror)

/-- The expansion of a class fails exactly at a malformed range after parts that fit. -/
theorem expand_eq_error_iff : expand room parts = .error (lower, upper) ↔
    ∃ before after texts, parts = before ++ .range lower upper :: after ∧
      Malformed lower upper ∧ Fits room before texts := by
  induction parts generalizing room with
  | nil =>
    refine iff_of_false nofun ?_
    rintro ⟨before, after, texts, hparts, -⟩
    simp at hparts
  | cons part parts ih =>
    rcases lists_or_malformed part with ⟨ts, hts⟩ | ⟨lower', upper', rfl, hmalformed⟩
    · rw [expand_cons_of_lists hts]
      constructor
      · intro h
        split at h
        · exact nomatch h
        · next hroom =>
          obtain ⟨before, after, texts, rfl, hmalformed, hfits⟩ :=
            ih.1 (Except.map_eq_error_iff.1 h)
          exact ⟨part :: before, after, ts ++ texts, rfl, hmalformed,
            .cons hts (by omega) hfits⟩
      · rintro ⟨before, after, texts, hparts, hmalformed, hfits⟩
        cases hfits with
        | nil =>
          obtain ⟨rfl, -⟩ := List.cons.inj hparts
          exact absurd hts (hmalformed.not_lists ts)
        | @cons _ part' before _ rest hts' hdemand hfits =>
          obtain ⟨rfl, rfl⟩ := List.cons.inj hparts
          obtain rfl := hts'.unique hts
          rw [if_neg (by omega)]
          exact Except.map_eq_error_iff.2 (ih.2 ⟨before, after, rest, rfl, hmalformed, hfits⟩)
    · rw [expand_cons_of_malformed hmalformed]
      constructor
      · intro h
        obtain ⟨rfl, rfl⟩ := Prod.mk.inj (Except.error.inj h)
        exact ⟨[], parts, [], rfl, hmalformed, .nil room⟩
      · rintro ⟨before, after, texts, hparts, -, hfits⟩
        cases hfits with
        | nil =>
          obtain ⟨hpart, -⟩ := List.cons.inj hparts
          obtain ⟨rfl, rfl⟩ := ClassPart.range.inj hpart
          rfl
        | @cons _ part' before ts _ hts hdemand hfits =>
          obtain ⟨rfl, -⟩ := List.cons.inj hparts
          exact absurd hts (hmalformed.not_lists ts)

/-- Parts that all list something are expanded to what they list, unless there are more texts than
there is room for or a range is charged too much. -/
theorem expand_of_lists (room : Nat) (h : List.Forall₂ Lists parts listings) :
    (expand room parts = .ok none ∧
        (room < listings.flatten.length ∨ Overcharged room parts listings)) ∨
      (expand room parts = .ok (some listings.flatten) ∧ listings.flatten.length ≤ room ∧
        ¬ Overcharged room parts listings) := by
  have hfits := exists_fits_iff room h
  rcases hout : expand room parts with ⟨lower, upper⟩ | _ | texts
  · exact absurd hout (expand_ne_error h (lower, upper))
  · left
    have hnot : ¬ ∃ texts, Fits room parts texts := by
      rintro ⟨texts, htexts⟩
      have hsome := expand_eq_some_iff.2 htexts
      rw [hout] at hsome
      exact nomatch hsome
    rw [hfits, not_and_or, not_not, Nat.not_le] at hnot
    exact ⟨rfl, hnot⟩
  · right
    have htexts := expand_eq_some_iff.1 hout
    obtain ⟨listings', h', rfl⟩ := htexts.exists_listings
    have hunique : Relator.RightUnique Lists := fun _ _ _ hl hl' => hl.unique hl'
    obtain rfl := List.right_unique_forall₂' hunique h' h
    exact ⟨rfl, hfits.1 ⟨_, htexts⟩⟩

/-- An expansion that has not run out of room is the same with more room. -/
theorem expand_mono (h : expand room parts ≠ .ok none) (hroom : room ≤ room') :
    expand room' parts = expand room parts := by
  rcases hout : expand room parts with ⟨lower, upper⟩ | _ | texts
  · obtain ⟨before, after, texts, hparts, hmalformed, hfits⟩ := expand_eq_error_iff.1 hout
    exact expand_eq_error_iff.2 ⟨before, after, texts, hparts, hmalformed, hfits.mono hroom⟩
  · exact absurd hout h
  · exact expand_eq_some_iff.2 ((expand_eq_some_iff.1 hout).mono hroom)

/-! ## The type of a class -/

/-- A type made of literals has their texts as members, each once. -/
theorem members_unionOf_literals (h : texts ≠ []) :
    (Ty.unionOf (texts.map Ty.literal)).members = texts.eraseDups.map Ty.literal := by
  have hinjective : Function.Injective Ty.literal := fun _ _ hab => Ty.literal.inj hab
  have hunion : ∀ t ∈ texts.map Ty.literal, t.isUnion = false := by
    intro t ht
    obtain ⟨text, -, rfl⟩ := List.mem_map.1 ht
    rfl
  rw [Ty.members_unionOf_of_not_union (mt List.map_eq_nil_iff.1 h) hunion, eraseDups_map hinjective]

/-- A type made of literals is not that of any text. -/
theorem unionOf_literals_ne_text (texts : List String) :
    Ty.unionOf (texts.map Ty.literal) ≠ .text := by
  intro h
  by_cases hnil : texts = []
  · subst hnil
    exact nomatch h
  · have hmembers := members_unionOf_literals hnil
    rw [h] at hmembers
    have htext : Ty.text ∈ texts.eraseDups.map Ty.literal := hmembers ▸ List.mem_singleton_self _
    obtain ⟨text, -, htext⟩ := List.mem_map.1 htext
    exact nomatch htext

/-- The outcome of a class that is neither inverted nor ignores case. -/
def outcome (cx : RuleContext) (parts : List ClassPart) (s : Scope) (ledger : Ledger) :
    Except InvalidRange Yield :=
  (((Expr.charClass parts false false).derive cx s).runFrom ledger).1

variable {cx : RuleContext} {s : Scope} {ledger : Ledger}

/-- The outcome of a class that has parts is told by their expansion. -/
theorem outcome_eq (hparts : parts ≠ []) :
    outcome cx parts s ledger =
      match expand cx.classLimit parts with
      | .ok none => .ok (.of .text)
      | .ok (some texts) => .ok (.of (Ty.unionOf (texts.map Ty.literal)))
      | .error (lower, upper) => .error ⟨cx.rule, lower, upper⟩ := by
  have hempty : parts.isEmpty = false := by simpa using hparts
  refine (Expr.derive_computes cx (.charClass parts false false) s ledger).1.trans ?_
  rw [Expr.result, type, hempty]
  rcases expand cx.classLimit parts with ⟨lower, upper⟩ | _ | texts <;> rfl

/-- A class is plain text exactly when its expansion runs out of room. -/
theorem outcome_eq_text_iff (hparts : parts ≠ []) :
    outcome cx parts s ledger = .ok (.of .text) ↔ expand cx.classLimit parts = .ok none := by
  rw [outcome_eq hparts]
  rcases expand cx.classLimit parts with ⟨lower, upper⟩ | _ | texts
  · exact iff_of_false nofun nofun
  · exact iff_of_true rfl rfl
  · refine iff_of_false (fun h => ?_) nofun
    have htypes := congrArg Yield.types (Except.ok.inj h)
    exact unionOf_literals_ne_text texts (List.cons.inj htypes).1

/-- A class that has parts and is not plain text is the union of the texts that its parts list,
which are its members, each once and in order of first occurrence. Its outcome, or its failure, is
then the same under every larger limit. -/
theorem outcome_exact (cx : RuleContext) (parts : List ClassPart) (hparts : parts ≠ []) (s : Scope)
    (ledger : Ledger) :
    (∀ y, outcome cx parts s ledger = .ok y → y ≠ .of .text →
      ∃ listings, List.Forall₂ Lists parts listings ∧
        y = .of (Ty.unionOf (listings.flatten.map Ty.literal)) ∧
        (Ty.unionOf (listings.flatten.map Ty.literal)).members =
          listings.flatten.eraseDups.map Ty.literal) ∧
    ∀ limit, cx.classLimit ≤ limit → outcome cx parts s ledger ≠ .ok (.of .text) →
      outcome { cx with classLimit := limit } parts s ledger = outcome cx parts s ledger := by
  constructor
  · intro y hy htext
    rw [outcome_eq hparts] at hy
    split at hy
    · exact absurd (Except.ok.inj hy).symm htext
    · next texts hexpand =>
      obtain ⟨listings, hlists, rfl⟩ := (expand_eq_some_iff.1 hexpand).exists_listings
      refine ⟨listings, hlists, (Except.ok.inj hy).symm, members_unionOf_literals ?_⟩
      -- The first part lists something.
      cases hlists with
      | nil => exact absurd rfl hparts
      | cons hfirst _ => exact List.append_ne_nil_of_left_ne_nil hfirst.ne_nil _
    · exact nomatch hy
  · intro limit hlimit htext
    have hroom : expand cx.classLimit parts ≠ .ok none := fun h =>
      htext ((outcome_eq_text_iff hparts).2 h)
    simp only [outcome_eq hparts, expand_mono hroom hlimit]

/-- A class with a text that is listed twice: it is counted twice, and is a member once, where it
comes first. -/
theorem outcome_exact_repeated :
    ∃ y, outcome ⟨"R", [], 4⟩ [.char "c", .range "a" "c"] .empty {} = .ok y ∧
      (∃ listings, List.Forall₂ Lists [.char "c", .range "a" "c"] listings ∧
        y = .of (Ty.unionOf (listings.flatten.map Ty.literal))) ∧
      y = .of (.union [.literal "c", .literal "a", .literal "b"]) ∧
      outcome ⟨"R", [], 256⟩ [.char "c", .range "a" "c"] .empty {} = .ok y := by
  obtain ⟨hexact, hlarger⟩ :=
    outcome_exact ⟨"R", [], 4⟩ [.char "c", .range "a" "c"] (by simp) .empty {}
  have hy : outcome ⟨"R", [], 4⟩ [.char "c", .range "a" "c"] .empty {} =
      .ok (.of (.union [.literal "c", .literal "a", .literal "b"])) := by
    have hexpand : expand 4 [.char "c", .range "a" "c"] = .ok (some ["c", "a", "b", "c"]) := rfl
    have hunion : Ty.unionOf (["c", "a", "b", "c"].map Ty.literal) =
        .union [.literal "c", .literal "a", .literal "b"] := by
      decide +kernel
    simp only [outcome_eq (List.cons_ne_nil _ _), hexpand, hunion]
  obtain ⟨listings, hlists, heq, -⟩ := hexact _ hy (by simp [Yield.of])
  refine ⟨_, hy, ⟨listings, hlists, heq⟩, rfl, ?_⟩
  rw [← hy]
  exact hlarger 256 (by decide) (by rw [hy]; simp [Yield.of])

/-- A class whose parts all list something is plain text exactly when they list more texts than the
limit, repeats counted, or a range is charged for the surrogates that it spans and leaves the limit
behind with these; and otherwise it is the union of what they list. So the limit counts the texts
of a class exactly when there are more of them or no range is charged too much. -/
theorem outcome_text_iff (cx : RuleContext) (parts : List ClassPart)
    (listings : List (List String)) (hparts : parts ≠ [])
    (hlists : List.Forall₂ Lists parts listings) (s : Scope) (ledger : Ledger) :
    (outcome cx parts s ledger = .ok (.of .text) ↔
      cx.classLimit < listings.flatten.length ∨ Overcharged cx.classLimit parts listings) ∧
    (outcome cx parts s ledger ≠ .ok (.of .text) →
      outcome cx parts s ledger = .ok (.of (Ty.unionOf (listings.flatten.map Ty.literal)))) ∧
    ((outcome cx parts s ledger = .ok (.of .text) ↔ cx.classLimit < listings.flatten.length) ↔
      cx.classLimit < listings.flatten.length ∨ ¬ Overcharged cx.classLimit parts listings) := by
  have htext : outcome cx parts s ledger = .ok (.of .text) ↔
      expand cx.classLimit parts = .ok none :=
    outcome_eq_text_iff hparts
  rcases expand_of_lists cx.classLimit hlists with ⟨hout, hwide⟩ | ⟨hout, hle, hcharged⟩
  · have hyes := htext.2 hout
    refine ⟨iff_of_true hyes hwide, fun hno => absurd hyes hno, ?_⟩
    rw [iff_true_left hyes, iff_self_or]
    exact fun hnot => hwide.resolve_right hnot
  · have hno : outcome cx parts s ledger ≠ .ok (.of .text) := by
      rw [Ne, htext, hout]
      exact nofun
    have hcount : ¬ cx.classLimit < listings.flatten.length := by omega
    refine ⟨iff_of_false hno (not_or.2 ⟨hcount, hcharged⟩), fun _ => ?_,
      iff_of_true (iff_of_false hno hcount) (.inr hcharged)⟩
    simp only [outcome_eq hparts, hout]

/-- The two characters around the surrogates. -/
theorem lists_around_surrogates :
    Lists (.range "\ud7ff" "\ue000") ["\ud7ff", "\ue000"] := by
  have hsorted : ['\ud7ff', '\ue000'].Pairwise (· < ·) := by decide
  refine .range rfl rfl (by decide) hsorted fun c => ?_
  have hvalid := Text.toNat_lt_or_gt c
  rw [List.mem_cons, List.mem_singleton, ← Char.toNat_inj, ← Char.toNat_inj, le_iff_toNat_le,
    le_iff_toNat_le]
  change c.toNat = 0xD7FF ∨ c.toNat = 0xE000 ↔ 0xD7FF ≤ c.toNat ∧ c.toNat ≤ 0xE000
  omega

/-- With the least limit that leaves room for the surrogates, a range around them and a character
after it are the union of three texts. -/
theorem outcome_text_iff_around_surrogates :
    List.Forall₂ Lists [.range "\ud7ff" "\ue000", .char "q"] [["\ud7ff", "\ue000"], ["q"]] ∧
    ¬ Overcharged 2050 [.range "\ud7ff" "\ue000", .char "q"] [["\ud7ff", "\ue000"], ["q"]] ∧
    outcome ⟨"R", [], 2050⟩ [.range "\ud7ff" "\ue000", .char "q"] .empty {} =
      .ok (.of (Ty.unionOf [.literal "\ud7ff", .literal "\ue000", .literal "q"])) := by
  have hlists : List.Forall₂ Lists [.range "\ud7ff" "\ue000", .char "q"]
      [["\ud7ff", "\ue000"], ["q"]] :=
    .cons lists_around_surrogates (.cons (.char "q") .nil)
  have hcharged : ¬ Overcharged 2050 [.range "\ud7ff" "\ue000", .char "q"]
      [["\ud7ff", "\ue000"], ["q"]] := by
    rintro ⟨_ | _ | k, part, hpart, hspans, hroom⟩
    · exact absurd hroom (by decide)
    · obtain rfl := Option.some.inj hpart
      exact hspans
    · exact nomatch hpart
  obtain ⟨htext, hunion, -⟩ := outcome_text_iff ⟨"R", [], 2050⟩
    [.range "\ud7ff" "\ue000", .char "q"] [["\ud7ff", "\ue000"], ["q"]] (by simp) hlists .empty {}
  refine ⟨hlists, hcharged, hunion fun h => ?_⟩
  exact (htext.1 h).elim (by decide) hcharged

/-- Under a limit of 256, a range that lists two texts is plain text. -/
theorem outcome_text_of_two :
    List.Forall₂ Lists [.range "\ud7ff" "\ue000"] [["\ud7ff", "\ue000"]] ∧
    ¬ 256 < [["\ud7ff", "\ue000"]].flatten.length ∧
    outcome ⟨"R", [], 256⟩ [.range "\ud7ff" "\ue000"] .empty {} = .ok (.of .text) ∧
    ¬ (outcome ⟨"R", [], 256⟩ [.range "\ud7ff" "\ue000"] .empty {} = .ok (.of .text) ↔
      256 < [["\ud7ff", "\ue000"]].flatten.length) := by
  have htext : outcome ⟨"R", [], 256⟩ [.range "\ud7ff" "\ue000"] .empty {} = .ok (.of .text) := rfl
  have hcount : ¬ 256 < [["\ud7ff", "\ue000"]].flatten.length := by decide
  exact ⟨.cons lists_around_surrogates .nil, hcount, htext, fun h => hcount (h.1 htext)⟩

end CharClass

end GrammarTypes
