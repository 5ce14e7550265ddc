import Mathlib.Data.List.Basic

/-!
# Streams that are cut into chunks

Packets are written to a stream one after the other, and the reader gets the stream
in chunks that need not be packets. A reader that decodes every chunk on its own
finds the packets exactly if the chunks are framed: each packet begins a chunk, which
holds enough of it, and no chunk holds bytes of two packets.

`filterMap_decode_eq_iff` proves this for any packets and any decoder for which
(`head`) a prefix of a packet decodes to it exactly if it is long enough, (`rest`)
what follows such a prefix in the packet decodes to nothing, and (`inside`) a chunk
that starts inside a packet does not decode to this packet.
-/

namespace Chunks

variable {β π γ : Type*}

/-- The stream of a sequence of packets. -/
def stream (bytes : π → List β) (ps : List π) : List β := (ps.map bytes).flatten

@[simp] theorem stream_nil (bytes : π → List β) : stream bytes [] = [] := rfl

@[simp] theorem stream_cons (bytes : π → List β) (p : π) (ps : List π) :
    stream bytes (p :: ps) = bytes p ++ stream bytes ps := rfl

/-- The chunks of each packet are its own: a first one that is long enough, and the rest. -/
inductive Framed (bytes : π → List β) (Heads : π → List β → Prop) :
    List (List β) → List π → Prop
  | nil : Framed bytes Heads [] []
  | cons {p : π} {ps : List π} {h : List β} {z cs : List (List β)}
      (hbytes : bytes p = h ++ z.flatten) (hhead : Heads p h) (hrest : Framed bytes Heads cs ps) :
      Framed bytes Heads (h :: z ++ cs) (p :: ps)

/-- What the theorem asks of packets and decoder. -/
structure Codec (bytes : π → List β) (Heads : π → List β → Prop) (cmd : π → γ)
    (decode : List β → Option γ) : Prop where
  nonempty : ∀ p, bytes p ≠ []
  empty : decode [] = none
  head : ∀ p h z, bytes p = h ++ z → (decode h = some (cmd p) ↔ Heads p h)
  rest : ∀ p ps h x z c r, bytes p = h ++ (x ++ z) → Heads p h → z ≠ [] → c ≠ [] →
    c ++ r = z ++ stream bytes ps → decode c = none
  inside : ∀ p ps a b c r, bytes p = a ++ b → a ≠ [] → b ≠ [] → c ++ r = b ++ stream bytes ps →
    decode c ≠ some (cmd p)

variable {bytes : π → List β} {Heads : π → List β → Prop} {cmd : π → γ}
  {decode : List β → Option γ}

/-- A reader that has lost the start of a packet never catches up: every packet would
    have to be found in a later one. -/
theorem Codec.lag (h : Codec bytes Heads cmd decode) {cs : List (List β)} {p : π} {ps : List π}
    {a : List β} (ha : a ≠ []) (hcut : a ++ cs.flatten = bytes p ++ stream bytes ps) :
    cs.filterMap decode ≠ cmd p :: ps.map cmd := by
  induction cs generalizing p ps a with
  | nil => exact nofun
  | cons c cs ih =>
    rw [List.flatten_cons] at hcut
    have hac : ∀ a' : List β, c ≠ [] → a' ++ c ≠ [] := fun a' hc =>
      List.append_ne_nil_of_right_ne_nil a' hc
    cases hd : decode c with
    | none =>
      rw [List.filterMap_cons_none hd]
      exact ih (List.append_ne_nil_of_left_ne_nil ha c) (by rw [List.append_assoc]; exact hcut)
    | some d =>
      rw [List.filterMap_cons_some hd]
      intro heq
      obtain ⟨rfl, hfound⟩ := List.cons.inj heq
      have hc : c ≠ [] := by
        rintro rfl
        exact nomatch h.empty.symm.trans hd
      -- The chunk does not start inside `p`, so it starts in what follows
      obtain ⟨a', hps⟩ : ∃ a', stream bytes ps = a' ++ (c ++ cs.flatten) := by
        rcases List.append_eq_append_iff.mp hcut with ⟨b, hb, hrest⟩ | ⟨a', -, hrest⟩
        · by_cases hbn : b = []
          · subst hbn
            exact ⟨[], hrest.symm⟩
          · exact absurd hd (h.inside p ps a b c cs.flatten hb ha hbn hrest)
        · exact ⟨a', hrest⟩
      cases ps with
      | nil =>
        rw [stream_nil] at hps
        exact hc (List.append_eq_nil_iff.mp (List.append_eq_nil_iff.mp hps.symm).2).1
      | cons q qs =>
        exact ih (hac a' hc) (by rw [List.append_assoc, ← hps, stream_cons]) hfound

/-- The chunks that hold the rest of a packet whose head was found. -/
theorem Codec.peel (h : Codec bytes Heads cmd decode) {cs : List (List β)} {p : π} {ps : List π}
    {k x z : List β} (hbytes : bytes p = k ++ (x ++ z)) (hhead : Heads p k)
    (hne : ∀ c ∈ cs, c ≠ []) (hcut : cs.flatten = z ++ stream bytes ps)
    (hfound : cs.filterMap decode = ps.map cmd) :
    ∃ zs cs', cs = zs ++ cs' ∧ zs.flatten = z ∧ cs'.flatten = stream bytes ps ∧
      cs'.filterMap decode = ps.map cmd := by
  induction cs generalizing x z with
  | nil =>
    obtain ⟨hz, hps⟩ := List.append_eq_nil_iff.mp hcut.symm
    exact ⟨[], [], rfl, hz.symm, hps.symm, hfound⟩
  | cons c cs ih =>
    by_cases hz : z = []
    · subst hz
      exact ⟨[], c :: cs, rfl, rfl, hcut, hfound⟩
    · rw [List.flatten_cons] at hcut
      have hnone := h.rest p ps k x z c cs.flatten hbytes hhead hz (hne c List.mem_cons_self) hcut
      rw [List.filterMap_cons_none hnone] at hfound
      have hne' : ∀ c ∈ cs, c ≠ [] := fun c' hc' => hne c' (List.mem_cons_of_mem c hc')
      rcases List.append_eq_append_iff.mp hcut with ⟨z', rfl, hcut'⟩ | ⟨c', rfl, hcut'⟩
      · -- The chunk is all inside the packet
        obtain ⟨zs, cs', rfl, rfl, hrest⟩ :=
          ih (x := x ++ c) (by simpa using hbytes) hne' hcut' hfound
        exact ⟨c :: zs, cs', rfl, rfl, hrest⟩
      · -- The chunk ends the packet: it must not begin the next one, whose command
        -- would not be found
        by_cases hc' : c' = []
        · subst hc'
          exact ⟨[z ++ []], cs, rfl, by simp, hcut'.symm, hfound⟩
        · cases ps with
          | nil => exact absurd (List.append_eq_nil_iff.mp hcut'.symm).1 hc'
          | cons q qs => exact absurd hfound (h.lag hc' hcut'.symm)

/-- Framed chunks decode to the packets. -/
theorem Codec.filterMap_of_framed (h : Codec bytes Heads cmd decode) {cs : List (List β)}
    {ps : List π} (hf : Framed bytes Heads cs ps) : cs.filterMap decode = ps.map cmd := by
  induction hf with
  | nil => rfl
  | @cons p ps k zs cs hbytes hhead _ ih =>
    have hnone : ∀ ys : List (List β), ∀ x, bytes p = k ++ (x ++ ys.flatten) →
        ys.filterMap decode = [] := by
      intro ys
      induction ys with
      | nil => exact fun _ _ => rfl
      | cons y ys ihy =>
        intro x hx
        rw [List.flatten_cons] at hx
        have hy : decode y = none := by
          by_cases hy : y = []
          · exact hy ▸ h.empty
          · exact h.rest p [] k x (y ++ ys.flatten) y ys.flatten hx hhead
              (List.append_ne_nil_of_left_ne_nil hy _) hy (by simp)
        rw [List.filterMap_cons_none hy]
        exact ihy (x ++ y) (by simpa using hx)
    rw [List.cons_append, List.filterMap_cons_some ((h.head p k zs.flatten hbytes).mpr hhead),
      List.filterMap_append, hnone zs [] hbytes, ih]
    rfl

/-- Only framed chunks decode to the packets. -/
theorem Codec.framed_of_filterMap (h : Codec bytes Heads cmd decode) {cs : List (List β)}
    {ps : List π} (hne : ∀ c ∈ cs, c ≠ []) (hcut : cs.flatten = stream bytes ps)
    (hfound : cs.filterMap decode = ps.map cmd) : Framed bytes Heads cs ps := by
  induction ps generalizing cs with
  | nil =>
    cases cs with
    | nil => exact .nil
    | cons c cs =>
      exact absurd (List.append_eq_nil_iff.mp hcut).1 (hne c List.mem_cons_self)
  | cons p ps ih =>
    cases cs with
    | nil => exact nomatch hfound
    | cons c cs =>
      rw [List.flatten_cons, stream_cons] at hcut
      have hc := hne c List.mem_cons_self
      have hne' : ∀ c ∈ cs, c ≠ [] := fun c' hc' => hne c' (List.mem_cons_of_mem c hc')
      cases hd : decode c with
      | none =>
        rw [List.filterMap_cons_none hd] at hfound
        exact absurd hfound (h.lag hc hcut)
      | some d =>
        rw [List.filterMap_cons_some hd] at hfound
        obtain ⟨rfl, hothers⟩ := List.cons.inj hfound
        -- The chunk ends inside the packet or with it
        obtain ⟨z, hbytes, hz⟩ : ∃ z, bytes p = c ++ z ∧ cs.flatten = z ++ stream bytes ps := by
          rcases List.append_eq_append_iff.mp hcut with ⟨z, hz, hcut'⟩ | ⟨c', hc', hcut'⟩
          · exact ⟨z, hz, hcut'⟩
          · by_cases hnil : c' = []
            · subst hnil
              exact ⟨[], by simpa using hc'.symm, hcut'.symm⟩
            · cases ps with
              | nil => exact absurd (List.append_eq_nil_iff.mp hcut'.symm).1 hnil
              | cons q qs => exact absurd hothers (h.lag hnil hcut'.symm)
        have hhead := (h.head p c z hbytes).mp hd
        obtain ⟨zs, cs', rfl, rfl, hcut', hfound'⟩ :=
          h.peel (x := []) hbytes hhead hne' hz hothers
        exact .cons hbytes hhead
          (ih (fun c' hc' => hne' c' (List.mem_append_right zs hc')) hcut' hfound')

/-- Chunks that make up the stream decode to the packets exactly if they are framed. -/
theorem Codec.filterMap_decode_eq_iff (h : Codec bytes Heads cmd decode) {cs : List (List β)}
    {ps : List π} (hne : ∀ c ∈ cs, c ≠ []) (hcut : cs.flatten = stream bytes ps) :
    cs.filterMap decode = ps.map cmd ↔ Framed bytes Heads cs ps :=
  ⟨h.framed_of_filterMap hne hcut, h.filterMap_of_framed⟩

end Chunks
