import DomainScaffold.Proofs.Merge.Bodies

/-!
# Bodies that grow once

What is known by a call or a key is added to a body at most once: when it is there, it is found,
and other additions do not hide it.

Results:
* `growsOnce_injected`, `growsOnce_injectEntry`: the two kinds of additions.
* `GrowsOnce.comp`: additions in a row.
-/

namespace DomainScaffold.Merge

open Php

/-- Whether the array that a body returns last has an entry with a key. -/
def Keyed (key : Expr) (body : List Statement) : Prop :=
  ∃ items, lastReturn? body = some (.ret (some (.array items))) ∧ hasKey key items = true

/-- Everything that is known by a call or a key in one body is so in the other, and both take
    entries or none of them does. -/
structure Grows (old new : List Statement) : Prop where
  identity : ∀ i, (old.any fun t => statementIdentity? t == some i) = true →
    (new.any fun t => statementIdentity? t == some i) = true
  key : ∀ key, Keyed key old → Keyed key new
  takes : takesEntries new = takesEntries old

theorem Grows.refl (body : List Statement) : Grows body body := ⟨fun _ => id, fun _ => id, rfl⟩

theorem Grows.trans {old mid new : List Statement} (h₁ : Grows old mid) (h₂ : Grows mid new) :
    Grows old new :=
  ⟨fun i h => h₂.identity i (h₁.identity i h), fun k h => h₂.key k (h₁.key k h),
    h₂.takes.trans h₁.takes⟩

theorem Grows.present {old new : List Statement} (h : Grows old new) {s : Statement}
    (hs : Registers s) (hp : isPresent old s = true) : isPresent new s = true := by
  obtain ⟨i, hi⟩ := Option.isSome_iff_exists.1 hs
  rw [isPresent_of_identity hi] at hp ⊢
  exact h.identity i hp

/-- An addition that is made once: made again it changes nothing, not even when the body has grown
    by other additions. -/
structure GrowsOnce (f : List Statement → List Statement) : Prop where
  again : ∀ body, f (f body) = f body
  stays : ∀ old new, f old = old → Grows old new → f new = new
  grows : ∀ body, Grows body (f body)

theorem growsOnce_id : GrowsOnce id := ⟨fun _ => rfl, fun _ _ _ _ => rfl, Grows.refl⟩

/-- Additions in a row. -/
theorem GrowsOnce.comp {f g : List Statement → List Statement} (hf : GrowsOnce f)
    (hg : GrowsOnce g) : GrowsOnce fun body => g (f body) where
  again body := by
    have hstays : f (g (f body)) = g (f body) := hf.stays _ _ (hf.again body) (hg.grows _)
    rw [hstays, hg.again]
  stays old new h hgrows := by
    -- If both together change nothing, then neither does the first one alone.
    have hfirst : f old = old := by
      have := hf.stays _ _ (hf.again old) (hg.grows (f old))
      rwa [h] at this
    have hsecond : g old = old := by rwa [hfirst] at h
    rw [hf.stays _ _ hfirst hgrows, hg.stays _ _ hsecond hgrows]
  grows body := (hf.grows body).trans (hg.grows _)

theorem bodyWritten_bodyWritten (f g : List Statement → List Statement) (k : MemberKind) :
    bodyWritten g (bodyWritten f k) = bodyWritten (fun b => g (f b)) k := by
  cases k <;> simp [bodyWritten, Function.comp_def]

theorem bodyWritten_eq_self_iff {f : List Statement → List Statement} {k : MemberKind} :
    bodyWritten f k = k ↔ ∀ body, bodyOf? k = some body → f body = body := by
  cases k with
  | method d =>
    rcases d with ⟨_, _, _, _, _, _, _, _, _, _ | body⟩ <;> simp [bodyWritten, bodyOf?]
  | _ => simp [bodyWritten, bodyOf?]

theorem bodyOf?_bodyWritten (f : List Statement → List Statement) (k : MemberKind) :
    bodyOf? (bodyWritten f k) = (bodyOf? k).map f := by
  cases k <;> rfl

theorem GrowsOnce.bodyWritten_again {f : List Statement → List Statement} (hf : GrowsOnce f)
    (k : MemberKind) : bodyWritten f (bodyWritten f k) = bodyWritten f k := by
  rw [bodyWritten_bodyWritten]
  simp only [hf.again]

/-- An addition that is there stays there under other additions. -/
theorem GrowsOnce.bodyWritten_stays {f g : List Statement → List Statement} (hf : GrowsOnce f)
    (hg : GrowsOnce g) {k : MemberKind} (h : bodyWritten f k = k) :
    bodyWritten f (bodyWritten g k) = bodyWritten g k := by
  rw [bodyWritten_eq_self_iff] at h ⊢
  intro body hbody
  rw [bodyOf?_bodyWritten] at hbody
  obtain ⟨b, hb, rfl⟩ := Option.map_eq_some_iff.1 hbody
  exact hf.stays b (g b) (h b hb) (hg.grows b)

/-! ## Statements -/

theorem any_identity_append {body added : List Statement} {i : String × String}
    (h : (body.any fun t => statementIdentity? t == some i) = true) :
    ((body ++ added).any fun t => statementIdentity? t == some i) = true := by
  rw [List.any_append, h, Bool.true_or]

theorem keyed_append {key : Expr} {body added : List Statement} (h : NoReturn added) :
    Keyed key (body ++ added) ↔ Keyed key body := by
  rw [Keyed, lastReturn?_append h]
  rfl

theorem grows_append {added : List Statement} (h : NoReturn added) (body : List Statement) :
    Grows body (body ++ added) where
  identity _ := any_identity_append
  key _ := (keyed_append h).2
  takes := by rw [takesEntries, lastReturn?_append h, takesEntries]

theorem afterEdit_foldl_injected (body ss : List Statement) :
    afterEdit body (.ok (Edited.foldl injected body ss)) =
      (Edited.foldl injected body ss).value := by
  obtain ⟨added, hv, -, hc⟩ := foldl_injected body ss
  rw [afterEdit]
  split
  · rfl
  · rename_i hn
    have : added = [] := by
      by_contra ha
      exact hn (hc.2 ha)
    rw [hv, this, List.append_nil]

theorem foldl_injected_of_present {body ss : List Statement}
    (h : ∀ s ∈ ss, isPresent body s = true) : Edited.foldl injected body ss = .kept body := by
  induction ss with
  | nil => rfl
  | cons s ss ih =>
    rw [Edited.foldl, injected_of_present (h s (by simp))]
    simp only [Edited.kept, Bool.false_or]
    rw [ih fun t ht => h t (List.mem_cons_of_mem _ ht)]
    rfl

/-- What is found in a body is found behind additions to its end. -/
theorem isPresent_append {body : List Statement} {s : Statement} (h : isPresent body s = true)
    (added : List Statement) : isPresent (body ++ added) s = true := by
  unfold isPresent at h ⊢
  split at h
  · rw [List.any_append, h, Bool.true_or]
  · split at h
    · rw [List.any_append, h, Bool.true_or]
    · cases h

/-- A statement that is found where it is the last one is present once it has been added. -/
theorem isPresent_foldl_injected {s : Statement} (hself : ∀ body, isPresent (body ++ [s]) s = true)
    {ss : List Statement} (hs : s ∈ ss) (body : List Statement) :
    isPresent (Edited.foldl injected body ss).value s = true := by
  induction ss generalizing body with
  | nil => cases hs
  | cons t ss ih =>
    rw [Edited.foldl]
    dsimp only
    rcases List.mem_cons.1 hs with rfl | hs
    · obtain ⟨added, hv, -, -⟩ := foldl_injected (injected s body).value ss
      rw [hv]
      refine isPresent_append ?_ added
      by_cases hp : isPresent body s = true
      · rwa [injected_of_present hp]
      · rw [Bool.not_eq_true] at hp
        rw [injected_of_not_present hp]
        exact hself body
    · exact ih hs (injected t body).value

/-- Statements that are known by a call are present once they have been added. -/
theorem present_foldl_injected {ss : List Statement} {s : Statement} (h : Registers s) (hs : s ∈ ss)
    (body : List Statement) : isPresent (Edited.foldl injected body ss).value s = true :=
  isPresent_foldl_injected (fun _ => isPresent_of_mem h (by simp)) hs body

theorem foldl_injected_eq_self_iff {body ss : List Statement} :
    (Edited.foldl injected body ss).value = body ↔ ∀ s ∈ ss, isPresent body s = true := by
  refine ⟨fun h => ?_, fun h => by rw [foldl_injected_of_present h]; rfl⟩
  induction ss with
  | nil => simp
  | cons s ss ih =>
    by_cases hp : isPresent body s = true
    · rw [Edited.foldl, injected_of_present hp] at h
      exact List.forall_mem_cons.2 ⟨hp, ih h⟩
    · -- A statement that is not present is added, and stays.
      rw [Bool.not_eq_true] at hp
      rw [Edited.foldl, injected_of_not_present hp] at h
      obtain ⟨added, hv, -, -⟩ := foldl_injected (body ++ [s]) ss
      have hlength := congrArg List.length (hv.symm.trans h)
      simp at hlength

theorem growsOnce_injected {ss : List Statement} (hss : ∀ s ∈ ss, Registers s) :
    GrowsOnce fun body => afterEdit body (.ok (Edited.foldl injected body ss)) := by
  simp only [afterEdit_foldl_injected]
  refine ⟨fun body => ?_, fun old new h hgrows => ?_, fun body => ?_⟩
  · exact foldl_injected_eq_self_iff.2 fun s hs => present_foldl_injected (hss s hs) hs body
  · rw [foldl_injected_eq_self_iff] at h ⊢
    exact fun s hs => hgrows.present (hss s hs) (h s hs)
  · obtain ⟨added, hv, hsub, -⟩ := foldl_injected body ss
    rw [hv]
    exact grows_append (fun t ht => not_isReturn_of_registers (hss t (hsub.subset ht))) body

/-! ## Entries -/

section Entries

variable (noMap : GenerationError) (key value : Expr)

theorem afterEdit_injectEntry_of_keyed {body : List Statement} (h : Keyed key body) :
    afterEdit body (injectEntry noMap key value body) = body := by
  obtain ⟨items, hl, hk⟩ := h
  have step := entryStep noMap key value body
  generalize injectEntry noMap key value body = o at step
  cases step with
  | opened hn =>
    rw [lastReturn?_of_none hn] at hl
    cases hl
  | added hs ha hk' =>
    rw [lastReturn?_of_last (by simp [isReturn, hs]) ha, hs] at hl
    cases hl
    rw [hk] at hk'
    cases hk'
  | there _ _ => rfl
  | refused _ => rfl

theorem afterEdit_injectEntry_of_not_takes {body : List Statement}
    (h : takesEntries body = false) : afterEdit body (injectEntry noMap key value body) = body := by
  have step := entryStep noMap key value body
  generalize injectEntry noMap key value body = o at step
  cases step with
  | opened hn =>
    rw [takesEntries, lastReturn?_of_none hn] at h
    cases h
  | added hs ha _ =>
    rw [takesEntries, lastReturn?_of_last (by simp [isReturn, hs]) ha, hs] at h
    cases h
  | there _ _ => rfl
  | refused _ => rfl

theorem statementIdentity?_of_isReturn {s : Statement} (h : isReturn s = true) :
    statementIdentity? s = none := by
  unfold isReturn at h
  unfold statementIdentity?
  cases hk : s.kind with
  | expression _ => rw [hk] at h; cases h
  | _ => rfl

theorem hasKey_append_self (items : List (Option Expr × Expr)) :
    hasKey key (items ++ [(some key, value)]) = true := by
  simp [hasKey]

theorem hasKey_append {key : Expr} {items : List (Option Expr × Expr)}
    (h : hasKey key items = true) (more : List (Option Expr × Expr)) :
    hasKey key (items ++ more) = true := by
  rw [hasKey, List.any_append, ← hasKey, h, Bool.true_or]

/-- An entry has been added, or what is returned takes none. -/
theorem keyed_or_not_takes (body : List Statement) :
    Keyed key (afterEdit body (injectEntry noMap key value body)) ∨
      takesEntries (afterEdit body (injectEntry noMap key value body)) = false := by
  have step := entryStep noMap key value body
  generalize injectEntry noMap key value body = o at step
  cases step with
  | opened _ =>
    exact .inl ⟨_, lastReturn?_concat body rfl, hasKey_append_self key value []⟩
  | added hs ha _ =>
    exact .inl ⟨_, lastReturn?_of_last rfl ha, hasKey_append_self key value _⟩
  | there hl hk => exact .inl ⟨_, hl, hk⟩
  | refused ht => exact .inr ht

theorem grows_injectEntry (body : List Statement) :
    Grows body (afterEdit body (injectEntry noMap key value body)) := by
  have step := entryStep noMap key value body
  generalize injectEntry noMap key value body = o at step
  cases step with
  | opened hn =>
    refine ⟨fun _ => any_identity_append, fun k hk => ?_, ?_⟩
    · obtain ⟨items, hl, -⟩ := hk
      rw [lastReturn?_of_none hn] at hl
      cases hl
    · rw [takesEntries, takesEntries, lastReturn?_of_none hn,
        afterEdit, Edited.replaced, if_pos rfl,
        lastReturn?_concat body rfl]
      rfl
  | @added before s after items hs ha _ =>
    have hr : isReturn s = true := by simp [isReturn, hs]
    refine ⟨fun i hi => ?_, fun k hk => ?_, ?_⟩
    · simp only [List.any_append, List.any_cons, statementIdentity?_of_isReturn hr] at hi
      simpa [afterEdit, Edited.replaced, statementIdentity?] using hi
    · obtain ⟨items', hl, hk⟩ := hk
      rw [lastReturn?_of_last hr ha, hs] at hl
      cases hl
      exact ⟨_, lastReturn?_of_last rfl ha, hasKey_append hk _⟩
    · rw [takesEntries, takesEntries, lastReturn?_of_last hr ha, hs,
        afterEdit, Edited.replaced, if_pos rfl, lastReturn?_of_last rfl ha]
  | there _ _ => exact .refl body
  | refused _ => exact .refl body

theorem growsOnce_injectEntry :
    GrowsOnce fun body => afterEdit body (injectEntry noMap key value body) := by
  have hself : ∀ body, Keyed key body ∨ takesEntries body = false →
      afterEdit body (injectEntry noMap key value body) = body := fun body h =>
    h.elim (afterEdit_injectEntry_of_keyed noMap key value)
      (afterEdit_injectEntry_of_not_takes noMap key value)
  refine ⟨fun body => hself _ (keyed_or_not_takes noMap key value body),
    fun old new h hgrows => hself _ ?_, grows_injectEntry noMap key value⟩
  have := keyed_or_not_takes noMap key value old
  rw [h] at this
  exact this.imp (hgrows.key key) fun ht => hgrows.takes.trans ht

end Entries

end DomainScaffold.Merge
