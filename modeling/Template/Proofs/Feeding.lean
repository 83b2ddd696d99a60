import Template.Proofs.BuilderSteps
import Template.Proofs.OpenLoops

/-! Builders fed with the linearisation of a tree, and trees from what builders have read. -/
namespace Template

open Token

def ElementTag.kinds : ElementTag → List Kind
  | .echo _ => [.tagOpen, .tagMark, .keyword .echo]
  | .loop counter => [.tagOpen, .tagMark, .keyword .loop, .identifier counter.text]

def Stage.kinds : Stage → List Kind
  | .between => []
  | .afterBrace => [.tagOpen]
  | .tagName => [.tagOpen, .tagMark]
  | .loopCounter => [.tagOpen, .tagMark, .keyword .loop]
  | .elements tag read => tag.kinds ++ read.toList.map (·.1.kind)
  | .closing tag read _ => tag.kinds ++ read.toList.map (·.1.kind) ++ [.tagMark]
  | .endTag _ => [.tagOpen, .tagMark, .keyword .endLoop]
  | .closingEnd _ => [.tagOpen, .tagMark, .keyword .endLoop, .tagMark]

namespace OpenLoops

/-- The kinds read up to the innermost open loop, its own tag included. -/
def kinds : OpenLoops → List Kind
  | [] => []
  | f :: outer => kinds outer ++ f.before.kinds ++ f.head.kinds

def WellFormed (loops : OpenLoops) : Prop :=
  ∀ f ∈ loops, f.before.WellFormed ∧ f.head.WellFormed

end OpenLoops

@[simp] theorem Stage.kinds_between : Stage.between.kinds = [] := rfl

theorem Stage.kinds_of_enters {t : Token} {stage stage' : Stage} (h : stage.Enters t stage') :
    stage'.kinds = stage.kinds ++ [t.kind] := by
  cases h <;> simp_all [Stage.kinds, ElementTag.kinds]

namespace Builder

/-- The builder that has read the parts `c` in the innermost open loop. -/
def inside (loops : OpenLoops) (c : Content) (stage : Stage) : Builder :=
  ⟨loops.document c, loops.numbers, stage⟩

/-- Takes tokens until they run out, the document is complete, or one of them does not fit. -/
def feedAll (b : Builder) : List Token → Except ParseError Progress
  | [] => .ok (.ongoing b)
  | t :: ts =>
    match b.feed t with
    | .ok (.ongoing c) => c.feedAll ts
    | other => other

variable {b b' : Builder} {t : Token} {ts us : List Token} {loops : OpenLoops} {f : Frame}
  {c d : Content} {stage : Stage} {tag : ElementTag} {read : Array (Element × Position)}
  {place : Position} {error : ParseError} {ks : List Kind} {head : Loop} {es : List Element}

theorem initial_eq : initial = inside [] .nil .between := rfl

theorem addLeaf_inside {node : Node} (loops : OpenLoops) (c x : Content) (stage : Stage)
    (hnumbers : ∀ n, x.numbers n = [n]) (hnodes : ∀ n, x.nodes n = [node]) :
    (inside loops c stage).addLeaf node = inside loops (c ++ x) .between := by
  simp only [addLeaf, inside, container, OpenLoops.append_document hnumbers hnodes]

theorem addLeaf_text (loops : OpenLoops) (c : Content) (stage : Stage) (value : String) :
    (inside loops c stage).addLeaf (.text value) =
      inside loops (c ++ .text value .nil) .between :=
  addLeaf_inside loops c (.text value .nil) stage (fun _ => rfl) (fun _ => rfl)

theorem addLeaf_echo (es : List Element) :
    (inside loops c stage).addLeaf (.echo es) = inside loops (c ++ .echo es .nil) .between :=
  addLeaf_inside loops c (.echo es .nil) stage (fun _ => rfl) (fun _ => rfl)

theorem openLoop_inside (head : Loop) :
    (inside loops c stage).openLoop head = inside (⟨c, head⟩ :: loops) .nil .between := by
  simp only [openLoop, inside, container]
  rw [OpenLoops.append_document (x := .loop head .nil .nil) (fun _ => rfl) (fun _ => rfl),
    ← OpenLoops.document_cons (f := ⟨c, head⟩), OpenLoops.size_document]
  rfl

theorem step_closeLoop (f : Frame) (loops : OpenLoops) (c : Content) (hk : t.kind = .tagClose) :
    (inside (f :: loops) c (.closingEnd place)).Step t
      (inside loops (f.before ++ .loop f.head c .nil) .between) := by
  rw [inside, inside, ← OpenLoops.document_cons]
  exact .endLoop rfl hk rfl

/-- The builder has read tokens of these kinds. -/
def HasRead (b : Builder) (ks : List Kind) : Prop :=
  ∃ (loops : OpenLoops) (c : Content) (stage : Stage), b = inside loops c stage ∧
    loops.WellFormed ∧ c.WellFormed ∧ ks = loops.kinds ++ c.kinds ++ stage.kinds

theorem hasRead_initial : HasRead initial [] :=
  ⟨[], .nil, .between, rfl, by simp [OpenLoops.WellFormed], trivial, rfl⟩

theorem hasRead_addLeaf {x : Content} {node : Node} (hloops : loops.WellFormed)
    (hc : c.WellFormed) (hx : x.WellFormed) (hnumbers : ∀ n, x.numbers n = [n])
    (hnodes : ∀ n, x.nodes n = [node]) (hk : stage.kinds ++ [t.kind] = x.kinds) :
    ((inside loops c stage).addLeaf node).HasRead
      (loops.kinds ++ c.kinds ++ stage.kinds ++ [t.kind]) := by
  rw [addLeaf_inside loops c x stage hnumbers hnodes]
  refine ⟨_, _, _, rfl, hloops, Content.wellFormed_append.2 ⟨hc, hx⟩, ?_⟩
  simp [hk]

theorem hasRead_step (hb : b.HasRead ks) (h : b.Step t b') : b'.HasRead (ks ++ [t.kind]) := by
  obtain ⟨loops, c, stage, rfl, hloops, hc, rfl⟩ := hb
  cases h with
  | @enter stage' hstage =>
    refine ⟨loops, c, stage', rfl, hloops, hc, ?_⟩
    simp [Stage.kinds_of_enters hstage, inside]
  | @text value hstage hk =>
    change stage = _ at hstage
    subst hstage
    refine hasRead_addLeaf (x := .text value .nil) hloops hc trivial (fun _ => rfl)
      (fun _ => rfl) ?_
    simp [hk, Stage.kinds, Content.kinds]
  | @echo _ _ read hstage hk hread =>
    change stage = _ at hstage
    subst hstage
    refine hasRead_addLeaf (x := .echo (read.toList.map (·.1)) .nil) hloops hc
      ⟨by simpa using hread, trivial⟩ (fun _ => rfl) (fun _ => rfl) ?_
    simp [hk, Stage.kinds, ElementTag.kinds, Content.kinds, echoKinds, tagKinds,
      Function.comp_def]
  | loop hstage hk hhead =>
    change stage = _ at hstage
    subst hstage
    obtain ⟨rfl, hoperands, hwf⟩ := Loop.ofElements_eq_ok_iff.1 hhead
    rw [openLoop_inside]
    refine ⟨_, _, _, rfl, List.forall_mem_cons.2 ⟨⟨hc, hwf⟩, hloops⟩, trivial, ?_⟩
    simp [hk, Content.kinds, Stage.kinds, ElementTag.kinds, OpenLoops.kinds, Loop.kinds,
      tagKinds, hoperands, Function.comp_def]
  | endLoop hstage hk hnumbers =>
    change stage = _ at hstage
    subst hstage
    cases loops with
    | nil => cases hnumbers
    | cons f outer =>
      cases hnumbers
      obtain ⟨hf, houter⟩ := List.forall_mem_cons.1 hloops
      refine ⟨outer, f.before ++ .loop f.head c .nil, .between, ?_, houter, ?_, ?_⟩
      · simp only [inside, OpenLoops.document_cons]
      · simp [Content.WellFormed, hf, hc]
      · simp [hk, Content.kinds, Stage.kinds, OpenLoops.kinds, endKinds, tagKinds]

theorem hasRead_feed (hb : b.HasRead ks) (h : b.feed t = .ok (.ongoing b')) :
    b'.HasRead (ks ++ [t.kind]) :=
  hasRead_step hb (step_of_feed h)

theorem content_of_complete {d : Document} (hb : b.HasRead ks)
    (h : b.feed t = .ok (.complete d)) :
    t.kind = .eof ∧ ∃ c : Content, c.WellFormed ∧ d = c.document ∧ ks = c.kinds := by
  obtain ⟨loops, c, stage, rfl, hloops, hc, rfl⟩ := hb
  obtain ⟨hstage, hk, hnone, rfl⟩ := feed_eq_complete_iff.1 h
  cases loops with
  | nil =>
    change stage = .between at hstage
    subst hstage
    exact ⟨hk, c, hc, rfl, by simp [OpenLoops.kinds, Stage.kinds]⟩
  | cons f outer => cases hnone

theorem feedAll_cons (h : b.feed t = .ok (.ongoing b')) : b.feedAll (t :: ts) = b'.feedAll ts := by
  simp only [feedAll, h]

theorem feedAll_enters {stage' : Stage} (h : stage.Enters t stage') :
    (inside loops c stage).feedAll (t :: ts) = (inside loops c stage').feedAll ts :=
  feedAll_cons (feed_of_enters h)

theorem feedAll_append (h : b.feedAll ts = .ok (.ongoing b')) :
    b.feedAll (ts ++ us) = b'.feedAll us := by
  induction ts generalizing b with
  | nil =>
    cases h
    rfl
  | cons t ts ih =>
    simp only [feedAll, List.cons_append] at h ⊢
    split at h
    · next hfeed => exact ih h
    · next hne => exact (hne _ h).elim

theorem feedAll_append_error (h : b.feedAll ts = .error error) :
    b.feedAll (ts ++ us) = .error error := by
  induction ts generalizing b with
  | nil => cases h
  | cons t ts ih =>
    simp only [feedAll, List.cons_append] at h ⊢
    split at h
    · exact ih h
    · exact h

/-- A complete document holds the tree whose linearisation has been read. -/
theorem content_of_feedAll {d : Document} (hb : b.HasRead ks)
    (h : b.feedAll ts = .ok (.complete d)) :
    ∃ us t rest, ts = us ++ t :: rest ∧ t.kind = .eof ∧
      ∃ c : Content, c.WellFormed ∧ d = c.document ∧ ks ++ us.map Token.kind = c.kinds := by
  induction ts generalizing b ks with
  | nil => cases h
  | cons t ts ih =>
    simp only [feedAll] at h
    split at h
    · next hfeed =>
      obtain ⟨us, u, rest, rfl, hu, c, hc, hd, hk⟩ := ih (hasRead_feed hb hfeed) h
      exact ⟨t :: us, u, rest, rfl, hu, c, hc, hd, by simpa using hk⟩
    · obtain ⟨ht, c, hc, hd, hk⟩ := content_of_complete hb h
      exact ⟨[], t, ts, rfl, ht, c, hc, hd, by simpa using hk⟩

theorem exists_of_map_tagKinds {inner : List Kind} (h : ts.map Token.kind = tagKinds inner) :
    ∃ t₁ t₂ us t₃ t₄, ts = [t₁, t₂] ++ us ++ [t₃, t₄] ∧ t₁.kind = .tagOpen ∧ t₂.kind = .tagMark ∧
      us.map Token.kind = inner ∧ t₃.kind = .tagMark ∧ t₄.kind = .tagClose := by
  obtain ⟨front, back, rfl, hfront, hback⟩ := List.map_eq_append_iff.1 h
  obtain ⟨opening, us, rfl, hopening, hus⟩ := List.map_eq_append_iff.1 hfront
  obtain ⟨t₁, _, rfl, h₁, hrest⟩ := List.map_eq_cons_iff.1 hopening
  obtain ⟨t₂, _, rfl, h₂, hnil⟩ := List.map_eq_cons_iff.1 hrest
  obtain ⟨t₃, _, rfl, h₃, hrest'⟩ := List.map_eq_cons_iff.1 hback
  obtain ⟨t₄, _, rfl, h₄, hnil'⟩ := List.map_eq_cons_iff.1 hrest'
  rw [List.map_eq_nil_iff] at hnil hnil'
  subst hnil hnil'
  exact ⟨t₁, t₂, us, t₃, t₄, rfl, h₁, h₂, hus, h₃, h₄⟩

/-- The elements of a token sequence, each with its place. -/
def placed (es : List Element) (ts : List Token) : List (Element × Position) :=
  es.zip (ts.map (·.span.start))

theorem map_fst_placed (h : ts.map Token.kind = es.map Element.kind) :
    (placed es ts).map (·.1) = es := by
  refine List.map_fst_zip ?_
  simpa using Nat.le_of_eq (congrArg List.length h).symm

theorem feedAll_open {t₁ t₂ : Token} (h₁ : t₁.kind = .tagOpen) (h₂ : t₂.kind = .tagMark) :
    (inside loops c .between).feedAll [t₁, t₂] = .ok (.ongoing (inside loops c .tagName)) := by
  rw [feedAll_enters (.opening h₁), feedAll_enters (.mark h₂)]
  rfl

theorem feedAll_elements (h : ts.map Token.kind = es.map Element.kind) :
    (inside loops c (.elements tag read)).feedAll ts =
      .ok (.ongoing (inside loops c (.elements tag (read ++ (placed es ts).toArray)))) := by
  induction es generalizing ts read with
  | nil =>
    rw [List.map_nil, List.map_eq_nil_iff] at h
    subst h
    simp [feedAll, placed]
  | cons e es ih =>
    obtain ⟨t, ts, rfl, ht, hts⟩ := List.map_eq_cons_iff.1 h
    rw [feedAll_enters (.element ht), ih hts]
    simp [placed]

theorem feedAll_close {t₃ t₄ : Token} (h₃ : t₃.kind = .tagMark) (h₄ : t₄.kind = .tagClose) :
    (inside loops c (.elements tag read)).feedAll [t₃, t₄] =
      (inside loops c (.closing tag read t₃.span.start)).closeTag read.toList t₃.span.start
        tag := by
  rw [feedAll_enters (.closing h₃)]
  simp only [feedAll, feed, inside, h₄, if_true]
  split
  · next hclose => exact hclose.symm
  · rfl

theorem feedAll_echo (hes : es ≠ []) (h : ts.map Token.kind = echoKinds es) :
    (inside loops c .between).feedAll ts =
      .ok (.ongoing (inside loops (c ++ .echo es .nil) .between)) := by
  obtain ⟨t₁, t₂, us, t₃, t₄, rfl, h₁, h₂, hus, h₃, h₄⟩ := exists_of_map_tagKinds h
  obtain ⟨t, us, rfl, ht, hes'⟩ := List.map_eq_cons_iff.1 hus
  rw [List.append_assoc, feedAll_append (feedAll_open h₁ h₂), List.cons_append,
    feedAll_enters (.echoName ht), feedAll_append (feedAll_elements hes'), feedAll_close h₃ h₄]
  have hfst := map_fst_placed hes'
  have hne : placed es us ≠ [] := by
    intro hnil
    rw [hnil] at hfst
    exact hes hfst.symm
  simp [closeTag, hne, addLeaf_echo, hfst]

/-- The tag of a loop comes down to the check of its operands, which stand behind four tokens. -/
theorem feedAll_loopTag (loops : OpenLoops) (c : Content) {counter : Name}
    (h : ts.map Token.kind =
      tagKinds (.keyword .loop :: .identifier counter.text :: es.map Element.kind)) :
    ∃ front us back mark, ts = front ++ us ++ back ∧ front.length = 4 ∧
      us.map Token.kind = es.map Element.kind ∧
      (inside loops c .between).feedAll ts =
        (Loop.ofElements counter (placed es us) mark >>= fun head =>
          .ok (.ongoing (inside (⟨c, head⟩ :: loops) .nil .between))) := by
  obtain ⟨t₁, t₂, us, t₅, t₆, rfl, h₁, h₂, hus, h₅, h₆⟩ := exists_of_map_tagKinds h
  obtain ⟨t₃, us, rfl, h₃, hus⟩ := List.map_eq_cons_iff.1 hus
  obtain ⟨t₄, us, rfl, h₄, hus⟩ := List.map_eq_cons_iff.1 hus
  refine ⟨[t₁, t₂, t₃, t₄], us, [t₅, t₆], t₅.span.start, rfl, rfl, hus, ?_⟩
  rw [List.append_assoc, feedAll_append (feedAll_open h₁ h₂), List.cons_append,
    feedAll_enters (.loopName h₃), List.cons_append, feedAll_enters (.counter h₄),
    feedAll_append (feedAll_elements hus), feedAll_close h₅ h₆]
  simp only [closeTag, openLoop_inside, List.toList_toArray, Array.empty_append]

theorem feedAll_loop (hhead : head.WellFormed) (h : ts.map Token.kind = head.kinds) :
    (inside loops c .between).feedAll ts =
      .ok (.ongoing (inside (⟨c, head⟩ :: loops) .nil .between)) := by
  obtain ⟨_, us, _, mark, _, _, hus, hfeed⟩ := feedAll_loopTag loops c h
  have hof : Loop.ofElements head.counter (placed head.operands us) mark = .ok head :=
    Loop.ofElements_eq_ok_iff.2 ⟨rfl, (map_fst_placed hus).symm, hhead⟩
  rw [hfeed, hof]
  rfl

theorem feedAll_end (h : ts.map Token.kind = endKinds) :
    (inside (f :: loops) c .between).feedAll ts =
      .ok (.ongoing (inside loops (f.before ++ .loop f.head c .nil) .between)) := by
  obtain ⟨t₁, t₂, us, t₃, t₄, rfl, h₁, h₂, hus, h₃, h₄⟩ := exists_of_map_tagKinds h
  obtain ⟨t, us, rfl, ht, hnil⟩ := List.map_eq_cons_iff.1 hus
  rw [List.map_eq_nil_iff] at hnil
  subst hnil
  rw [List.append_assoc, feedAll_append (feedAll_open h₁ h₂), List.singleton_append,
    feedAll_enters (.endName ht), feedAll_enters (.closingEnd h₃),
    feedAll_cons (feed_of_step (step_closeLoop f loops c h₄))]
  rfl

/-- The linearisation of a tree is read as that tree, behind what has been read before. -/
theorem feedAll_content (loops : OpenLoops) (c : Content) (hd : d.WellFormed)
    (h : ts.map Token.kind = d.kinds) :
    (inside loops c .between).feedAll ts = .ok (.ongoing (inside loops (c ++ d) .between)) := by
  induction d generalizing loops c ts with
  | nil =>
    rw [Content.kinds, List.map_eq_nil_iff] at h
    subst h
    rw [Content.append_nil]
    rfl
  | text value next ih =>
    obtain ⟨t, us, rfl, ht, hus⟩ := List.map_eq_cons_iff.1 h
    rw [feedAll_cons (feed_of_step (.text rfl ht)), addLeaf_text, ih _ _ hd hus,
      Content.append_assoc]
    rfl
  | echo elements next ih =>
    obtain ⟨us, vs, rfl, hus, hvs⟩ := List.map_eq_append_iff.1 h
    rw [feedAll_append (feedAll_echo hd.1 hus), ih _ _ hd.2 hvs, Content.append_assoc]
    rfl
  | loop head body next ihb ihn =>
    obtain ⟨us, ts₄, rfl, hus, h₄⟩ := List.map_eq_append_iff.1 h
    obtain ⟨us, ts₃, rfl, hus, h₃⟩ := List.map_eq_append_iff.1 hus
    obtain ⟨ts₁, ts₂, rfl, h₁, h₂⟩ := List.map_eq_append_iff.1 hus
    rw [List.append_assoc, List.append_assoc, feedAll_append (feedAll_loop hd.1 h₁),
      feedAll_append (ihb _ _ hd.2.1 h₂), feedAll_append (feedAll_end h₃), ihn _ _ hd.2.2 h₄,
      Content.append_assoc]
    rfl

end Builder

end Template
