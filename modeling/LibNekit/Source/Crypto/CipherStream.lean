import LibNekit.Source.Crypto.TlsTunnel

/-!
# The cipher text of a session

What a session puts into the BIO pair goes through the pair and `pending_read_cipher_` and
is then read out of the tunnel. No call of the tunnel loses or reorders it.
-/
namespace LibNekit.Source

open LibNekit.Library Ssl TlsTunnel Program

variable {σ : Type}

/-- What a session has put into the pair, and what of it is still there. -/
structure CipherStream (σ : Type) where
  emitted : σ → Bytes
  held : σ → Bytes

/-- What the documentation of OpenSSL says of the pair. -/
structure Emits (lib : OpenSsl σ) (b : CipherStream σ) : Prop where
  bioPending : ∀ s, (lib .bioPending s).1.count = (b.held s).length ∧ b.emitted (lib .bioPending s).2 = b.emitted s ∧
    b.held (lib .bioPending s).2 = b.held s
  bioRead : ∀ n s, (lib (.bioRead n) s).1.data = (b.held s).take n ∧ b.emitted (lib (.bioRead n) s).2 = b.emitted s ∧
    b.held (lib (.bioRead n) s).2 = (b.held s).drop n
  other : ∀ c s, c ≠ .bioPending → (∀ n, c ≠ .bioRead n) → ∃ more,
    b.emitted (lib c s).2 = b.emitted s ++ more ∧ b.held (lib c s).2 = b.held s ++ more

/-- Behind what has been read out of the tunnel, everything is still on its way. -/
def CipherStream.Balanced (b : CipherStream σ) (out : Bytes) (t : TlsTunnel) (s : σ) : Prop :=
  b.emitted s = out ++ t.pendingReadCipher ++ b.held s

namespace Emits

variable {lib : OpenSsl σ} {b : CipherStream σ} {out : Bytes} {t t' : TlsTunnel} {s s' : σ}

theorem other_balanced (emits : Emits lib b) {c : SslCall} (not_pending : c ≠ .bioPending) (not_read : ∀ n, c ≠ .bioRead n)
    (same : t'.pendingReadCipher = t.pendingReadCipher) (balanced : b.Balanced out t s) : b.Balanced out t' (lib c s).2 := by
  obtain ⟨more, emitted, held⟩ := emits.other c s not_pending not_read
  unfold CipherStream.Balanced at balanced ⊢
  rw [emitted, held, same, balanced, List.append_assoc]

theorem flushCipherBuffer (emits : Emits lib b) (balanced : b.Balanced out t s)
    (ran : on lib t.flushCipherBuffer s = .ok (t', s')) : b.Balanced out t' s' ∧ b.held s' = [] := by
  obtain ⟨count, emitted, held⟩ := emits.bioPending s
  unfold TlsTunnel.flushCipherBuffer at ran
  unfold CipherStream.Balanced at balanced ⊢
  simp only [call_bind, on_ask] at ran
  split at ran
  · next none =>
    cases ran
    rw [count] at none
    rw [emitted, held]
    exact ⟨balanced, List.length_eq_zero_iff.mp none⟩
  · rw [on_ask] at ran
    obtain ⟨u, s₁, whole, ran⟩ := on_bind_ok.mp ran
    obtain ⟨-, rfl⟩ := on_assert.mp whole
    cases ran
    obtain ⟨data, emitted', held'⟩ := emits.bioRead (lib .bioPending s).1.count (lib .bioPending s).2
    have all : (b.held s).length ≤ (lib .bioPending s).1.count := Nat.le_of_eq count.symm
    dsimp only
    rw [emitted', emitted, data, held', held, List.take_of_length_le all, List.drop_of_length_le all, balanced]
    simp only [List.append_assoc, List.append_nil, and_self]

theorem readStopped_cipher (r : SslReply) (t : TlsTunnel) : (t.readStopped r).pendingReadCipher = t.pendingReadCipher := by
  unfold readStopped
  split <;> rfl

theorem flushPlainBuffer (emits : Emits lib b) {n : Nat} (balanced : b.Balanced out t s)
    (ran : on lib (t.flushPlainBuffer n) s = .ok (t', s')) : b.Balanced out t' s' := by
  refine @loop_ends _ _ _ _ σ TlsTunnel (answers lib) .endlessLoop readOnce (b.Balanced out) (b.Balanced out) ?_ n t s
    (t', s') balanced ran
  intro t₁ s₁ r s₂ balanced passed
  have passed : on lib t₁.readOnce s₁ = .ok (r, s₂) := passed
  have kept : ∀ t₂ : TlsTunnel, t₂.pendingReadCipher = t₁.pendingReadCipher →
      b.Balanced out t₂ (lib (.sslRead tlsReadSize) s₁).2 := fun t₂ same => emits.other_balanced nofun nofun same balanced
  unfold readOnce at passed
  simp only [call_bind, on_ask] at passed
  split at passed
  · cases passed
    exact kept _ (readStopped_cipher _ _)
  · split at passed
    · cases passed
      exact kept _ rfl
    · split at passed
      · cases passed
        exact kept _ rfl
      · cases passed

theorem writePieces (emits : Emits lib b) {pieces : List Bytes} {processed processed' : Nat} (balanced : b.Balanced out t s)
    (ran : on lib (TlsTunnel.writePieces pieces t processed) s = .ok ((t', processed'), s')) : b.Balanced out t' s' := by
  induction pieces generalizing t processed s with
  | nil =>
    cases ran
    exact balanced
  | cons data rest ih =>
    have kept : ∀ t₂ : TlsTunnel, t₂.pendingReadCipher = t.pendingReadCipher →
        b.Balanced out t₂ (lib (.bioWrite (passed data)) s).2 := fun t₂ same => emits.other_balanced nofun nofun same balanced
    unfold TlsTunnel.writePieces at ran
    simp only [call_bind, on_ask] at ran
    split at ran
    · split at ran <;> cases ran <;> exact kept _ rfl
    · split at ran
      · exact ih (kept { t with needCipherInput := false } rfl) ran
      · cases ran
        exact kept _ rfl

theorem writeCipherTextData (emits : Emits lib b) {buffer : Chunks} {n : Nat} (balanced : b.Balanced out t s)
    (ran : on lib (TlsTunnel.writeCipherTextData n buffer t) s = .ok (t', s')) : b.Balanced out t' s' := by
  refine @loop_ends _ _ _ _ σ (TlsTunnel × Nat) (answers lib) .endlessLoop (writePass buffer n)
    (fun x => b.Balanced out x.1) (b.Balanced out) ?_ n (t, 0) s (t', s') balanced ran
  rintro ⟨t₁, processed⟩ s₁ r s₂ balanced passed
  have passed : on lib (writePass buffer n (t₁, processed)) s₁ = .ok (r, s₂) := passed
  unfold writePass at passed
  split at passed
  · obtain ⟨⟨t₂, processed₂⟩, s₃, walked, passed⟩ := on_bind_ok.mp passed
    have given := emits.writePieces balanced walked
    dsimp only at passed
    split at passed
    · obtain ⟨t₃, s₄, flushed, passed⟩ := on_bind_ok.mp passed
      cases passed
      obtain ⟨t₄, s₅, cipher, plain⟩ := on_bind_ok.mp flushed
      exact emits.flushPlainBuffer (emits.flushCipherBuffer given cipher).1 plain
    · cases passed
      exact given
  · cases passed
    exact balanced

/-- The walk of `InternalPlainWrite`. -/
theorem plainPieces (emits : Emits lib b) {pieces : List Bytes} {writed writed' : Nat} (balanced : b.Balanced out t s)
    (ran : on lib (TlsTunnel.plainPieces pieces t writed) s = .ok ((t', writed'), s')) : b.Balanced out t' s' := by
  induction pieces generalizing t writed s with
  | nil =>
    cases ran
    exact balanced
  | cons data rest ih =>
    have kept : ∀ t₂ : TlsTunnel, t₂.pendingReadCipher = t.pendingReadCipher →
        b.Balanced out t₂ (lib (.sslWrite (passed data)) s).2 := fun t₂ same => emits.other_balanced nofun nofun same balanced
    unfold TlsTunnel.plainPieces at ran
    simp only [call_bind, on_ask] at ran
    split at ran
    · exact ih (kept t rfl) ran
    · split at ran
      · obtain ⟨u, s₁, part, ran⟩ := on_bind_ok.mp ran
        obtain ⟨-, rfl⟩ := on_assert.mp part
        cases ran
        exact kept _ rfl
      · split at ran <;> cases ran <;> exact kept _ rfl

theorem plainPass (emits : Emits lib b) {r : TlsTunnel ⊕ TlsTunnel} (balanced : b.Balanced out t s)
    (ran : on lib t.plainPass s = .ok (r, s')) :
    b.held s' = [] ∧ Sum.elim (fun t' => b.Balanced out t' s') (fun t' => b.Balanced out t' s') r := by
  unfold TlsTunnel.plainPass at ran
  obtain ⟨⟨t₁, writed⟩, s₁, walked, ran⟩ := on_bind_ok.mp ran
  have wrote := emits.plainPieces balanced walked
  obtain ⟨u, s₂, asserted, ran⟩ := on_bind_ok.mp ran
  obtain ⟨-, rfl⟩ := on_assert.mp asserted
  obtain ⟨t₂, s₃, flushed, ran⟩ := on_bind_ok.mp ran
  have shrunk : b.Balanced out { t₁ with pendingWritePlain := t₁.pendingWritePlain.shrinkFront writed } s₁ := wrote
  obtain ⟨balanced', none⟩ := emits.flushCipherBuffer shrunk flushed
  split at ran <;> cases ran <;> exact ⟨none, balanced'⟩

/-- A write that has returned leaves nothing in the pair. -/
theorem writePlainTextData (emits : Emits lib b) {buffer : Chunks} {n : Nat} (balanced : b.Balanced out t s)
    (ran : on lib (TlsTunnel.writePlainTextData n buffer t) s = .ok (t', s')) : b.Balanced out t' s' ∧ b.held s' = [] := by
  obtain ⟨u, s₀, asserted, ran⟩ := on_bind_ok.mp ran
  obtain ⟨-, rfl⟩ := on_assert.mp asserted
  refine @loop_ends _ _ _ _ σ TlsTunnel (answers lib) .endlessLoop TlsTunnel.plainPass (b.Balanced out)
    (fun t₁ s₁ => b.Balanced out t₁ s₁ ∧ b.held s₁ = []) ?_ n { t with pendingWritePlain := buffer } s (t', s') balanced ran
  intro t₁ s₁ r s₂ balanced passed
  obtain ⟨none, after⟩ := emits.plainPass balanced passed
  cases r with
  | inl t₂ => exact after
  | inr t₂ => exact ⟨after, none⟩

end Emits

/-! ## Cipher text that waits stays in front -/

variable {lib : OpenSsl σ} {t t' : TlsTunnel} {s s' : σ}

theorem flushCipherBuffer_grows (ran : on lib t.flushCipherBuffer s = .ok (t', s')) :
    t.pendingReadCipher <+: t'.pendingReadCipher := by
  unfold TlsTunnel.flushCipherBuffer at ran
  simp only [call_bind, on_ask] at ran
  split at ran
  · cases ran
    exact List.prefix_refl _
  · rw [on_ask] at ran
    obtain ⟨u, s₁, whole, ran⟩ := on_bind_ok.mp ran
    cases ran
    exact List.prefix_append _ _

theorem flushPlainBuffer_cipher {n : Nat} (ran : on lib (t.flushPlainBuffer n) s = .ok (t', s')) :
    t'.pendingReadCipher = t.pendingReadCipher := by
  refine @loop_ends _ _ _ _ σ TlsTunnel (answers lib) .endlessLoop readOnce
    (fun t₁ _ => t₁.pendingReadCipher = t.pendingReadCipher) (fun t₁ _ => t₁.pendingReadCipher = t.pendingReadCipher) ?_
    n t s (t', s') rfl ran
  intro t₁ s₁ r s₂ same passed
  have passed : on lib t₁.readOnce s₁ = .ok (r, s₂) := passed
  unfold readOnce at passed
  simp only [call_bind, on_ask] at passed
  split at passed
  · cases passed
    exact (Emits.readStopped_cipher _ _).trans same
  · split at passed
    · cases passed
      exact same
    · split at passed
      · cases passed
        exact same
      · cases passed

theorem writePieces_cipher {pieces : List Bytes} {processed processed' : Nat}
    (ran : on lib (TlsTunnel.writePieces pieces t processed) s = .ok ((t', processed'), s')) :
    t'.pendingReadCipher = t.pendingReadCipher := by
  induction pieces generalizing t processed s with
  | nil =>
    cases ran
    rfl
  | cons data rest ih =>
    unfold TlsTunnel.writePieces at ran
    simp only [call_bind, on_ask] at ran
    split at ran
    · split at ran <;> cases ran <;> rfl
    · split at ran
      · exact @ih { t with needCipherInput := false } _ _ ran
      · cases ran
        rfl

theorem writeCipherTextData_grows {buffer : Chunks} {n : Nat}
    (ran : on lib (TlsTunnel.writeCipherTextData n buffer t) s = .ok (t', s')) :
    t.pendingReadCipher <+: t'.pendingReadCipher := by
  refine @loop_ends _ _ _ _ σ (TlsTunnel × Nat) (answers lib) .endlessLoop (writePass buffer n)
    (fun x _ => t.pendingReadCipher <+: x.1.pendingReadCipher) (fun t₁ _ => t.pendingReadCipher <+: t₁.pendingReadCipher) ?_
    n (t, 0) s (t', s') (List.prefix_refl _) ran
  rintro ⟨t₁, processed⟩ s₁ r s₂ grows passed
  have passed : on lib (writePass buffer n (t₁, processed)) s₁ = .ok (r, s₂) := passed
  unfold writePass at passed
  split at passed
  · obtain ⟨⟨t₂, processed₂⟩, s₃, walked, passed⟩ := on_bind_ok.mp passed
    have same := writePieces_cipher walked
    dsimp only at passed same grows
    rw [← same] at grows
    split at passed
    · obtain ⟨t₃, s₄, flushed, passed⟩ := on_bind_ok.mp passed
      cases passed
      obtain ⟨t₄, s₅, cipher, plain⟩ := on_bind_ok.mp flushed
      have more := flushCipherBuffer_grows cipher
      rw [← flushPlainBuffer_cipher plain] at more
      exact grows.trans more
    · cases passed
      exact grows
  · cases passed
    exact grows

end LibNekit.Source
