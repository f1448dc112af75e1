import OsLab.Image.Pipes

/-!
# Protocol — what goes through the pipes

Sender and receiver take turns in any order.  Their steps commute, so it is enough to follow one run:
the one in which each tile is read as soon as it is written.  In it both are always at the same tile,
and what the receiver has put together so far is the grey image, up to that tile.
-/

namespace OsLab
namespace Image

open Lib

/-! ## Accesses within the bounds -/

section Bounds

variable {R : Rounding} {w h : Nat}

theorem foldlM_eq_some {σ α : Type} {f : σ → α → Option σ} {g : σ → α → σ} :
    ∀ {l : List α}, (∀ a ∈ l, ∀ s, f s a = some (g s a)) → ∀ s, l.foldlM f s = some (l.foldl g s)
  | [], _, s => rfl
  | a :: l, hf, s => by
      rw [List.foldlM_cons, hf a List.mem_cons_self, List.foldl_cons]
      exact foldlM_eq_some (fun b hb => hf b (List.mem_cons_of_mem a hb)) (g s a)

theorem fetch_eq {p q : Nat} (hp : p < h) (hq : q < w) (M : Matrix) :
    fetch w h M p q = some (M p q) := by
  rw [fetch, if_pos ⟨hp, hq⟩]

theorem store_eq {p q : Nat} (hp : p < h) (hq : q < w) (M : Matrix) (t : Pixel) :
    store w h M p q t = some (put M p q t) := by
  rw [store, if_pos ⟨hp, hq⟩]

theorem convertGrayscaleChecked_eq (M : Matrix) :
    convertGrayscaleChecked R w h M = some (convertGrayscale R w h M) := by
  refine foldlM_eq_some ?_ M
  intro p hp M
  refine foldlM_eq_some ?_ M
  intro q hq M
  rw [List.mem_range] at hp hq
  simp [greyPixelChecked, greyPixel, fetch_eq hp hq, store_eq hp hq]

theorem blurValueChecked_eq {p q : Nat} (hp : p < h) (hq : q < w) (M : Matrix) :
    blurValueChecked R w h M p q = some (blurValue R w (M p) q) := by
  have hshare : ∀ (amount : Nat) (acc : Pixel) (u : Nat), u < w →
      addShareChecked R w h M p amount acc u = some (addShare R amount acc (M p u)) := by
    intro amount acc u hu
    simp [addShareChecked, fetch_eq hp hu]
  simp only [blurValueChecked, fetch_eq hp hq, Option.bind_eq_bind, Option.bind_some]
  -- Both windows end within the row.
  by_cases hshort : w - q < BLUR_AMOUNT
  · rw [if_pos hshort, blurValue, if_pos hshort]
    refine foldlM_eq_some ?_ _
    intro u hu acc
    rw [List.mem_range'_1] at hu
    exact hshare _ acc u (by omega)
  · rw [if_neg hshort, blurValue, if_neg hshort]
    refine foldlM_eq_some ?_ _
    intro i hi acc
    rw [List.mem_range'_1] at hi
    exact hshare _ acc (q + i) (by omega)

theorem horizontalBlurChecked_eq (M : Matrix) :
    horizontalBlurChecked R w h M = some (heightorizontalBlur R w h M) := by
  refine foldlM_eq_some ?_ M
  intro p hp M
  refine foldlM_eq_some ?_ M
  intro q hq M
  rw [List.mem_range] at hp hq
  simp [blurPixelChecked, blurPixel, blurValueChecked_eq hp hq, store_eq hp hq]

/-- The pixels of a tile. -/
def tileAt (M : Matrix) (i j : Nat) : Tile :=
  ![M i j, M i (j + 1), M i (j + 2), M (i + 1) j, M (i + 1) (j + 1), M (i + 1) (j + 2),
    M (i + 2) j, M (i + 2) (j + 1), M (i + 2) (j + 2)]

theorem takeTile_eq {i j : Nat} (hi : i + 3 ≤ h) (hj : j + 3 ≤ w) (M : Matrix) :
    takeTile w h M i j = some (tileAt M i j) := by
  have hrow : i < h ∧ i + 1 < h ∧ i + 2 < h := by omega
  have hcol : j < w ∧ j + 1 < w ∧ j + 2 < w := by omega
  simp [takeTile, fetch, hrow, hcol, tileAt]

/-- A tile of the image `G` at the place it was taken from. -/
def withTile (G M : Matrix) (p j : Nat) : Matrix :=
  fun x y => if (p ≤ x ∧ x < p + 3) ∧ j ≤ y ∧ y < j + 3 then G x y else M x y

theorem placeTile_eq {p j : Nat} (hp : p + 3 ≤ h) (hj : j + 3 ≤ w) (G M : Matrix) :
    placeTile w h M p j (tileAt G p j) = some (withTile G M p j) := by
  have hrow : p < h ∧ p + 1 < h ∧ p + 2 < h := by omega
  have hcol : j < w ∧ j + 1 < w ∧ j + 2 < w := by omega
  simp only [placeTile, store, hrow, hcol, and_self, if_true, Option.bind_eq_bind,
    Option.bind_some]
  congr 1
  funext x y
  by_cases hin : (p ≤ x ∧ x < p + 3) ∧ j ≤ y ∧ y < j + 3
  · rw [withTile, if_pos hin]
    -- One of the nine pixels.
    have hx : x = p ∨ x = p + 1 ∨ x = p + 2 := by omega
    have hy : y = j ∨ y = j + 1 ∨ y = j + 2 := by omega
    rcases hx with rfl | rfl | rfl <;> rcases hy with rfl | rfl | rfl <;> simp [put, tileAt]
  · rw [withTile, if_neg hin]
    repeat rw [put_ne _ (by omega)]

end Bounds

/-! ## The image put together from tiles -/

/-- What has arrived of `G` when the next tile is at row `3 * r` and column `3 * c`, with `n` tiles in
a row. -/
def arrived (G : Matrix) (n r c : Nat) : Matrix :=
  fun x y => if (x < 3 * r ∧ y < 3 * n) ∨ (x < 3 * r + 3 ∧ y < 3 * c) then G x y else ⟨0, 0, 0⟩

section Arrived

variable {G : Matrix} {n r c : Nat}

theorem arrived_start : arrived G n 0 0 = fun _ _ => ⟨0, 0, 0⟩ := by
  funext x y
  simp [arrived]

theorem arrived_tile (hc : c < n) :
    withTile G (arrived G n r c) (3 * r) (3 * c) = arrived G n r (c + 1) := by
  funext x y
  by_cases hin : (3 * r ≤ x ∧ x < 3 * r + 3) ∧ 3 * c ≤ y ∧ y < 3 * c + 3
  · have hnew : (x < 3 * r ∧ y < 3 * n) ∨ (x < 3 * r + 3 ∧ y < 3 * (c + 1)) := by omega
    simp only [withTile, if_pos hin, arrived, if_pos hnew]
  · have hiff : ((x < 3 * r ∧ y < 3 * n) ∨ (x < 3 * r + 3 ∧ y < 3 * c)) ↔
        ((x < 3 * r ∧ y < 3 * n) ∨ (x < 3 * r + 3 ∧ y < 3 * (c + 1))) := by omega
    simp only [withTile, if_neg hin, arrived, hiff]

theorem arrived_row : arrived G n r n = arrived G n (r + 1) 0 := by
  funext x y
  have hiff : ((x < 3 * r ∧ y < 3 * n) ∨ (x < 3 * r + 3 ∧ y < 3 * n)) ↔
      ((x < 3 * (r + 1) ∧ y < 3 * n) ∨ (x < 3 * (r + 1) + 3 ∧ y < 3 * 0)) := by omega
  simp only [arrived, hiff]

end Arrived

/-! ## The run in step -/

/-- The first tiles of a row of tiles, with the places they are taken from. -/
def tileRow (G : Matrix) (n r : Nat) : List (Nat × Nat × Tile) :=
  (List.range n).map fun c => (3 * r, 3 * c, tileAt G (3 * r) (3 * c))

/-- All tiles before the one at row `3 * r` and column `3 * c`. -/
def tilesBefore (G : Matrix) (n r c : Nat) : List (Nat × Nat × Tile) :=
  (List.range r).flatMap (tileRow G n) ++ tileRow G c r

theorem tilesBefore_tile (G : Matrix) (n r c : Nat) :
    tilesBefore G n r c ++ [(3 * r, 3 * c, tileAt G (3 * r) (3 * c))] =
      tilesBefore G n r (c + 1) := by
  simp [tilesBefore, tileRow, List.range_succ]

theorem tilesBefore_row (G : Matrix) (n r : Nat) :
    tilesBefore G n r n = tilesBefore G n (r + 1) 0 := by
  simp [tilesBefore, tileRow, List.range_succ]

section Run

variable (R : Rounding) (pic : Picture)

/-- The image that the sender sends. -/
def greyImage : Matrix :=
  convertGrayscale R pic.head.weight pic.head.height pic.pixels

/-- All tiles, row by row. -/
def allTiles : List (Nat × Nat × Tile) :=
  tilesBefore (greyImage R pic) (pic.head.weight / 3) (pic.head.height / 3) 0

/-- The image that arrives. -/
def arrivedImage : Matrix :=
  arrived (greyImage R pic) (pic.head.weight / 3) (pic.head.height / 3) 0

/-- Both processes are at the same tile, and no tile is under way. -/
structure InStep (s : Children) (r c : Nat) : Prop where
  sender : s.producer.pc = .tiles (3 * r) (3 * c)
  receiver : s.consumer.pc = .tiles (3 * r) (3 * c)
  grey : s.producer.matrix = greyImage R pic
  head : s.consumer.head = pic.head
  empty : ∀ k, s.channel k = []
  written : s.producer.written = tilesBefore (greyImage R pic) (pic.head.weight / 3) r c
  read : s.consumer.read = s.producer.written
  matrix : s.consumer.matrix = arrived (greyImage R pic) (pic.head.weight / 3) r c

/-- Both processes are through. -/
structure Finished (s : Children) : Prop where
  sender : s.producer.pc = .exited
  receiver : s.consumer.pc = .exited
  empty : ∀ k, s.channel k = []
  written : s.producer.written = allTiles R pic
  read : s.consumer.read = s.producer.written
  matrix : s.consumer.matrix =
    heightorizontalBlur R pic.head.weight pic.head.height (arrivedImage R pic)

variable {R pic} (cap : PipeCapacity) {s : Children} {r c : Nat}

/-- A tile that is written can be read at once. -/
theorem InStep.tile (hs : InStep R pic s r c) (hr : r < pic.head.height / 3)
    (hc : c < pic.head.weight / 3) :
    ∃ t, Reaches (part2_3 R cap pic).step s t ∧ InStep R pic t r (c + 1) := by
  have hi : 3 * r + 3 ≤ pic.head.height := by omega
  have hj : 3 * c + 3 ≤ pic.head.weight := by omega
  have hi' : ((3 * r : Nat) : Int) ≤ pic.head.height - 3 := by omega
  have hj' : ((3 * c : Nat) : Int) ≤ pic.head.weight - 3 := by omega
  -- The sender takes the tile from the grey image …
  have hwrite : (part2_3 R cap pic).produce s.producer =
      .write .tiles (tileAt (greyImage R pic) (3 * r) (3 * c))
        { s.producer with
          pc := .tiles (3 * r) (3 * (c + 1))
          written := s.producer.written ++
            [(3 * r, 3 * c, tileAt (greyImage R pic) (3 * r) (3 * c))] } := by
    simp only [part2_3, convertGrayscaleSender, hs.sender, if_pos hi', if_pos hj', hs.grey,
      takeTile_eq hi hj]
    rfl
  have hread : (part2_3 R cap pic).consume s.consumer =
      .read .tiles (s.consumer.place (3 * r) (3 * c)) := by
    simp only [part2_3, horizontalBlurReceiver, hs.receiver, hs.head, if_pos hi', if_pos hj']
  -- … and the receiver puts it at the same place.
  have hplace : s.consumer.place (3 * r) (3 * c) (tileAt (greyImage R pic) (3 * r) (3 * c)) =
      { s.consumer with
        pc := .tiles (3 * r) (3 * (c + 1))
        matrix := arrived (greyImage R pic) (pic.head.weight / 3) r (c + 1)
        read := s.consumer.read ++
          [(3 * r, 3 * c, tileAt (greyImage R pic) (3 * r) (3 * c))] } := by
    simp only [Receiver.place, hs.head, hs.matrix, placeTile_eq hi hj, arrived_tile hc]
    rfl
  refine ⟨_, Network.reaches_handover hwrite hread (hs.empty .tiles), ?_⟩
  rw [hplace]
  refine ⟨rfl, rfl, hs.grey, hs.head, hs.empty, ?_, ?_, rfl⟩
  · simp only [hs.written, tilesBefore_tile]
  · simp only [hs.read]

/-- At the end of a row of tiles both processes go to the next one. -/
theorem InStep.row (hs : InStep R pic s r (pic.head.weight / 3)) (hr : r < pic.head.height / 3) :
    ∃ t, Reaches (part2_3 R cap pic).step s t ∧ InStep R pic t (r + 1) 0 := by
  have hi' : ((3 * r : Nat) : Int) ≤ pic.head.height - 3 := by omega
  -- There is no room for another tile in this row.
  have hj' : ¬ ((3 * (pic.head.weight / 3) : Nat) : Int) ≤ pic.head.weight - 3 := by omega
  have hsend : (part2_3 R cap pic).produce s.producer =
      .move { s.producer with pc := .tiles (3 * (r + 1)) 0 } := by
    simp only [part2_3, convertGrayscaleSender, hs.sender, if_pos hi', if_neg hj']
    rfl
  have hrecv : (part2_3 R cap pic).consume s.consumer =
      .move { s.consumer with pc := .tiles (3 * (r + 1)) 0 } := by
    simp only [part2_3, horizontalBlurReceiver, hs.receiver, hs.head, if_pos hi', if_neg hj']
    rfl
  refine ⟨_, .head (Network.step_producer_move hsend)
    (.head (Network.step_consumer_move hrecv) (.refl _)), ?_⟩
  refine ⟨rfl, rfl, hs.grey, hs.head, hs.empty, ?_, hs.read, ?_⟩
  · rw [hs.written, tilesBefore_row]
  · rw [hs.matrix, arrived_row]

/-- After the last tile the sender exits, and the receiver blurs the image. -/
theorem InStep.finish (hs : InStep R pic s (pic.head.height / 3) 0) :
    ∃ t, Reaches (part2_3 R cap pic).step s t ∧ Finished R pic t := by
  -- There is no room for another row of tiles.
  have hi' : ¬ ((3 * (pic.head.height / 3) : Nat) : Int) ≤ pic.head.height - 3 := by omega
  have hsend : (part2_3 R cap pic).produce s.producer = .move { s.producer with pc := .exited } := by
    simp only [part2_3, convertGrayscaleSender, hs.sender, if_neg hi']
  have hrecv : (part2_3 R cap pic).consume s.consumer = .move { s.consumer with pc := .blur } := by
    simp only [part2_3, horizontalBlurReceiver, hs.receiver, hs.head, if_neg hi']
  have hblur : (part2_3 R cap pic).consume { s.consumer with pc := .blur } =
      .move { s.consumer with
        pc := .exited
        matrix := heightorizontalBlur R pic.head.weight pic.head.height (arrivedImage R pic) } := by
    simp only [part2_3, horizontalBlurReceiver, hs.head, hs.matrix, horizontalBlurChecked_eq]
    rfl
  refine ⟨_, .head (Network.step_producer_move hsend)
    (.head (Network.step_consumer_move hrecv)
      (.head (Network.step_consumer_move hblur) (.refl _))), ?_⟩
  exact ⟨rfl, rfl, hs.empty, hs.written, hs.read, rfl⟩

variable (R pic) in
/-- The header is read as soon as it is written, and the sender makes the image grey. -/
theorem forked_inStep :
    ∃ t, Reaches (part2_3 R cap pic).step forked t ∧ InStep R pic t 0 0 := by
  have hwrite : (part2_3 R cap pic).produce forked.producer =
      .write .head pic.head { forked.producer with pc := .grey, matrix := pic.pixels } := rfl
  have hread : (part2_3 R cap pic).consume forked.consumer =
      .read .head fun (head : FileInformation) =>
        { forked.consumer with
          pc := .tiles 0 0
          head := head
          matrix := fun _ _ => ⟨0, 0, 0⟩ } := rfl
  have hgrey : (part2_3 R cap pic).produce
      { forked.producer with pc := .grey, matrix := pic.pixels } =
        .move { forked.producer with pc := .tiles 0 0, matrix := greyImage R pic } := by
    simp only [part2_3, convertGrayscaleSender, convertGrayscaleChecked_eq]
    rfl
  refine ⟨_, (Network.reaches_handover hwrite hread rfl).trans
    (.head (Network.step_producer_move hgrey) (.refl _)), ?_⟩
  refine ⟨rfl, rfl, rfl, rfl, ?_, rfl, rfl, arrived_start.symm⟩
  intro k
  cases k <;> rfl

/-- The rest of a row of tiles. -/
theorem InStep.tiles (hr : r < pic.head.height / 3) :
    ∀ {n c : Nat} {s : Children}, c + n = pic.head.weight / 3 → InStep R pic s r c →
      ∃ t, Reaches (part2_3 R cap pic).step s t ∧ InStep R pic t r (pic.head.weight / 3)
  | 0, c, s, hn, hs => by
      rw [Nat.add_zero] at hn
      subst hn
      exact ⟨s, .refl s, hs⟩
  | n + 1, c, s, hn, hs => by
      rcases hs.tile cap hr (by omega) with ⟨s₁, hfirst, hs₁⟩
      rcases InStep.tiles hr (n := n) (by omega) hs₁ with ⟨t, hrest, ht⟩
      exact ⟨t, hfirst.trans hrest, ht⟩

/-- The rest of the rows. -/
theorem InStep.rows :
    ∀ {n r : Nat} {s : Children}, r + n = pic.head.height / 3 → InStep R pic s r 0 →
      ∃ t, Reaches (part2_3 R cap pic).step s t ∧ InStep R pic t (pic.head.height / 3) 0
  | 0, r, s, hn, hs => by
      rw [Nat.add_zero] at hn
      subst hn
      exact ⟨s, .refl s, hs⟩
  | n + 1, r, s, hn, hs => by
      rcases InStep.tiles cap (by omega : r < pic.head.height / 3) (Nat.zero_add _) hs with
        ⟨s₁, htiles, hs₁⟩
      -- The end of the row, and the rows after it.
      rcases hs₁.row cap (by omega) with ⟨s₂, hrow, hs₂⟩
      rcases InStep.rows (n := n) (by omega) hs₂ with ⟨t, hrest, ht⟩
      exact ⟨t, (htiles.trans hrow).trans hrest, ht⟩

variable (R pic) in
theorem exists_finished :
    ∃ t, Reaches (part2_3 R cap pic).step forked t ∧ Finished R pic t := by
  rcases forked_inStep R pic cap with ⟨s₁, hstart, hs₁⟩
  rcases hs₁.rows cap (Nat.zero_add _) with ⟨s₂, hrows, hs₂⟩
  rcases hs₂.finish cap with ⟨t, hfinish, ht⟩
  exact ⟨t, (hstart.trans hrows).trans hfinish, ht⟩

theorem Finished.halted (hs : Finished R pic s) : Halted (part2_3 R cap pic).step s := by
  intro a
  -- Both have exited.
  cases a with
  | producer =>
      simp only [Network.step, part2_3, convertGrayscaleSender, hs.sender]
  | consumer =>
      simp only [Network.step, part2_3, horizontalBlurReceiver, hs.receiver]

/-! ## Any run -/

/-- Logs only grow, and a crashed process stays where it is. -/
structure Grows (s t : Children) : Prop where
  written : s.producer.written <+: t.producer.written
  read : s.consumer.read <+: t.consumer.read
  sender : s.producer.pc = .crashed → t.producer.pc = .crashed
  receiver : s.consumer.pc = .crashed → t.consumer.pc = .crashed

theorem Grows.refl (s : Children) : Grows s s :=
  ⟨List.prefix_rfl, List.prefix_rfl, id, id⟩

theorem Grows.trans {s t u : Children} (hst : Grows s t) (htu : Grows t u) : Grows s u :=
  ⟨hst.written.trans htu.written, hst.read.trans htu.read, htu.sender ∘ hst.sender,
    htu.receiver ∘ hst.receiver⟩

theorem sender_move {s p : Sender} (h : convertGrayscaleSender R pic s = .move p) :
    s.pc ≠ .crashed ∧ p.written = s.written := by
  simp only [convertGrayscaleSender] at h
  cases hpc : s.pc with
  | head => simp [hpc] at h
  | grey =>
      simp only [hpc, convertGrayscaleChecked_eq] at h
      cases h
      exact ⟨nofun, rfl⟩
  | tiles i j =>
      simp only [hpc] at h
      refine ⟨nofun, ?_⟩
      split_ifs at h
      · cases htake : takeTile pic.head.weight pic.head.height s.matrix i j with
        | none =>
            simp only [htake] at h
            cases h
            rfl
        | some t => simp [htake] at h
      · cases h
        rfl
      · cases h
        rfl
  | exited => simp [hpc] at h
  | crashed => simp [hpc] at h

theorem sender_write {s p : Sender} {k : Pipe} {m : Block k}
    (h : convertGrayscaleSender R pic s = .write k m p) :
    s.pc ≠ .crashed ∧
      ((k = .head ∧ p.written = s.written) ∨ (k = .tiles ∧ ∃ e, p.written = s.written ++ [e])) := by
  simp only [convertGrayscaleSender] at h
  cases hpc : s.pc with
  | head =>
      simp only [hpc] at h
      cases h
      exact ⟨nofun, .inl ⟨rfl, rfl⟩⟩
  | grey => simp [hpc, convertGrayscaleChecked_eq] at h
  | tiles i j =>
      simp only [hpc] at h
      refine ⟨nofun, ?_⟩
      split_ifs at h
      cases htake : takeTile pic.head.weight pic.head.height s.matrix i j with
      | none => simp [htake] at h
      | some t =>
          simp only [htake] at h
          cases h
          exact .inr ⟨rfl, _, rfl⟩
  | exited => simp [hpc] at h
  | crashed => simp [hpc] at h

theorem receiver_move {s c : Receiver} (h : horizontalBlurReceiver R s = .move c) :
    s.pc ≠ .crashed ∧ c.read = s.read := by
  simp only [horizontalBlurReceiver] at h
  cases hpc : s.pc with
  | head => simp [hpc] at h
  | tiles p j =>
      simp only [hpc] at h
      refine ⟨nofun, ?_⟩
      split_ifs at h
      · cases h
        rfl
      · cases h
        rfl
  | blur =>
      simp only [hpc, horizontalBlurChecked_eq] at h
      cases h
      exact ⟨nofun, rfl⟩
  | exited => simp [hpc] at h
  | crashed => simp [hpc] at h

theorem receiver_read {s : Receiver} {k : Pipe} {next : Block k → Receiver}
    (h : horizontalBlurReceiver R s = .read k next) (m : Block k) :
    s.pc ≠ .crashed ∧
      ((next m).read = s.read ∨ (k = .tiles ∧ ∃ e, (next m).read = s.read ++ [e])) := by
  simp only [horizontalBlurReceiver] at h
  cases hpc : s.pc with
  | head =>
      simp only [hpc] at h
      cases h
      exact ⟨nofun, .inl rfl⟩
  | tiles p j =>
      simp only [hpc] at h
      refine ⟨nofun, ?_⟩
      split_ifs at h
      cases h
      simp only [Receiver.place]
      cases placeTile s.head.weight s.head.height s.matrix p j m with
      | none => exact .inl rfl
      | some M => exact .inr ⟨trivial, _, rfl⟩
  | blur => simp [hpc, horizontalBlurChecked_eq] at h
  | exited => simp [hpc] at h
  | crashed => simp [hpc] at h

/-- A process that takes a step has not crashed, and its log grows by what it does. -/
theorem grows_step {t : Children} {a : Party} (hstep : (part2_3 R cap pic).step s a = some t) :
    Grows s t := by
  cases a with
  | producer =>
      rcases Network.producer_cases hstep with ⟨p, hmove, rfl⟩ | ⟨k, m, p, hwrite, -, rfl⟩
      · rcases sender_move hmove with ⟨hlive, hlog⟩
        exact ⟨by rw [hlog], List.prefix_rfl, fun h => absurd h hlive, id⟩
      · rcases sender_write hwrite with ⟨hlive, ⟨-, hlog⟩ | ⟨-, e, hlog⟩⟩
        · exact ⟨by rw [hlog], List.prefix_rfl, fun h => absurd h hlive, id⟩
        · refine ⟨?_, List.prefix_rfl, fun h => absurd h hlive, id⟩
          rw [hlog]
          exact List.prefix_append _ _
  | consumer =>
      rcases Network.consumer_cases hstep with ⟨c, hmove, rfl⟩ | ⟨k, next, m, rest, hread, -, rfl⟩
      · rcases receiver_move hmove with ⟨hlive, hlog⟩
        exact ⟨List.prefix_rfl, by rw [hlog], id, fun h => absurd h hlive⟩
      · rcases receiver_read hread m with ⟨hlive, hlog | ⟨-, e, hlog⟩⟩
        · exact ⟨List.prefix_rfl, by rw [hlog], id, fun h => absurd h hlive⟩
        · refine ⟨List.prefix_rfl, ?_, id, fun h => absurd h hlive⟩
          rw [hlog]
          exact List.prefix_append _ _

/-- Every tile that was read or is under way was written. -/
def Balanced (s : Children) : Prop :=
  s.consumer.read.length + (s.channel .tiles).length ≤ s.producer.written.length

theorem balanced_step {t : Children} {a : Party} (hs : Balanced s)
    (hstep : (part2_3 R cap pic).step s a = some t) : Balanced t := by
  rw [Balanced] at hs ⊢
  cases a with
  | producer =>
      rcases Network.producer_cases hstep with ⟨p, hmove, rfl⟩ | ⟨k, m, p, hwrite, -, rfl⟩
      · rw [(sender_move hmove).2]
        exact hs
      · rcases sender_write hwrite with ⟨-, ⟨rfl, hlog⟩ | ⟨rfl, e, hlog⟩⟩
        · simp only [hlog, Function.update_of_ne (by decide : Pipe.tiles ≠ .head)]
          exact hs
        · -- A tile is added to the log and to the pipe.
          simp only [hlog, Function.update_self, List.length_append, List.length_singleton]
          omega
  | consumer =>
      rcases Network.consumer_cases hstep with
        ⟨c, hmove, rfl⟩ | ⟨k, next, m, rest, hread, hqueue, rfl⟩
      · rw [(receiver_move hmove).2]
        exact hs
      · -- A read never makes the pipe of tiles longer.
        have hrest : (Function.update s.channel k rest .tiles).length ≤
            (s.channel .tiles).length := by
          by_cases hk : k = .tiles
          · subst hk
            rw [Function.update_self, hqueue]
            exact Nat.le_succ _
          · rw [Function.update_of_ne (Ne.symm hk)]
        rcases receiver_read hread m with ⟨-, hlog | ⟨rfl, e, hlog⟩⟩
        · simp only [hlog]
          omega
        · -- A tile goes from the pipe to the log of the receiver.
          rw [hqueue, List.length_cons] at hs
          simp only [hlog, Function.update_self, List.length_append, List.length_singleton]
          omega

/-- What holds at any time: no index was out of bounds, and the tiles read are the first ones that
were written, each of them stored at the place it was taken from. -/
structure Agreed (R : Rounding) (pic : Picture) (s : Children) : Prop where
  sender : s.producer.pc ≠ .crashed
  receiver : s.consumer.pc ≠ .crashed
  read : s.consumer.read <+: s.producer.written
  written : s.producer.written <+: allTiles R pic

theorem Finished.agreed {t : Children} (ht : Finished R pic t) (hgrows : Grows s t)
    (hbalanced : Balanced s) : Agreed R pic s := by
  refine ⟨?_, ?_, ?_, ?_⟩
  · -- A process that crashed would not have exited.
    intro hcrash
    have hcrash' := hgrows.sender hcrash
    rw [ht.sender] at hcrash'
    cases hcrash'
  · intro hcrash
    have hcrash' := hgrows.receiver hcrash
    rw [ht.receiver] at hcrash'
    cases hcrash'
  · -- Both logs are prefixes of the same list of tiles.
    have hread := hgrows.read
    rw [ht.read] at hread
    rw [Balanced] at hbalanced
    exact List.prefix_of_prefix_length_le hread hgrows.written (by omega)
  · have hwritten := hgrows.written
    rwa [ht.written] at hwritten

/-- A run that cannot go on is at the end. -/
theorem finished_of_halted {sched : List Party}
    (hsched : sched.foldlM (part2_3 R cap pic).step forked = some s)
    (hhalt : Halted (part2_3 R cap pic).step s) : Finished R pic s := by
  rcases exists_finished R pic cap with ⟨t, ⟨as, has⟩, ht⟩
  have heq := Commuting.eq_of_halted (part2_3 R cap pic).commuting has (ht.halted cap) hsched hhalt
  rw [heq]
  exact ht

/-- Whatever the order of the steps: the two sides agree on the tiles, no run goes on forever, and
every run leads to the end, where all tiles are read and the pipes are empty. -/
theorem tiles_agree (R : Rounding) (cap : PipeCapacity) (pic : Picture) :
    ∃ bound, ∀ (sched : List Party) (s : Children),
      sched.foldlM (part2_3 R cap pic).step forked = some s →
        sched.length ≤ bound ∧ Agreed R pic s ∧
          (Halted (part2_3 R cap pic).step s → Finished R pic s) ∧
          ∃ t, Reaches (part2_3 R cap pic).step s t ∧ Finished R pic t := by
  rcases exists_finished R pic cap with ⟨t, ⟨as, has⟩, ht⟩
  have hcomm := (part2_3 R cap pic).commuting
  refine ⟨as.length, ?_⟩
  intro sched s hsched
  -- From here, too, the end is ahead.
  rcases Commuting.complete hcomm (ht.halted cap) has hsched with ⟨bs, hbs, hlen⟩
  refine ⟨by omega, ?_, ?_, t, ⟨bs, hbs⟩, ht⟩
  · have hgrows : Grows s t := by
      refine foldlM_keeps (P := fun u => Grows s u) ?_ hbs (Grows.refl s)
      intro u a u' hu hstep
      exact hu.trans (grows_step cap hstep)
    have hbalanced : Balanced s := by
      refine foldlM_keeps (P := Balanced) ?_ hsched (by simp [Balanced, forked])
      intro u a u' hu hstep
      exact balanced_step cap hu hstep
    exact ht.agreed hgrows hbalanced
  · exact finished_of_halted cap hsched

/-! ## The image that is written out -/

section Result

variable {w h : Nat}

theorem arrivedImage_eq (hh : 3 ∣ pic.head.height) (hw : 3 ∣ pic.head.weight) {p u : Nat}
    (hp : p < pic.head.height) (hu : u < pic.head.weight) :
    arrivedImage R pic p u = greyImage R pic p u := by
  have hin : p < 3 * (pic.head.height / 3) ∧ u < 3 * (pic.head.weight / 3) := by omega
  rw [arrivedImage, arrived, if_pos (.inl hin)]

/-- The last pixel gets lost if there is a rest of rows or of columns. -/
theorem arrivedImage_last (hrest : ¬ (3 ∣ pic.head.height ∧ 3 ∣ pic.head.weight)) :
    arrivedImage R pic (pic.head.height - 1) (pic.head.weight - 1) = ⟨0, 0, 0⟩ := by
  rw [arrivedImage, arrived, if_neg (by omega)]

theorem Finished.last (hs : Finished R pic s) (hh : 0 < pic.head.height) (hw : 0 < pic.head.weight)
    (hrest : ¬ (3 ∣ pic.head.height ∧ 3 ∣ pic.head.weight)) :
    s.consumer.matrix (pic.head.height - 1) (pic.head.weight - 1) = ⟨0, 0, 0⟩ := by
  rw [hs.matrix, heightorizontalBlur_apply, if_pos (by omega)]
  refine blurValue_spot (n := 0) (by omega) (arrivedImage_last hrest) (by decide) (by norm_num) ?_
  -- It is the last pixel of its row.
  intro u hu huw
  omega

/-- An image whose last pixel is the bright one. -/
def lastSpot (w h : Nat) : Picture where
  head := ⟨h, w, 255, "P3"⟩
  pixels := spot (h - 1) (w - 1)

/-- The receiver writes out the matrix of `part1` in every run and for every image of this size if
and only if the image consists of whole tiles. -/
theorem pipes_eq_part1_iff (R : Rounding) (cap : PipeCapacity) (w h : Nat) (hw : 0 < w)
    (hh : 0 < h) :
    (∀ pic : Picture, pic.head.weight = w → pic.head.height = h →
      ∀ (sched : List Party) (s : Children),
        sched.foldlM (part2_3 R cap pic).step forked = some s → Halted (part2_3 R cap pic).step s →
          ∀ p q, p < h → q < w → s.consumer.matrix p q = part1 R w h pic.pixels p q) ↔
      3 ∣ h ∧ 3 ∣ w := by
  constructor
  · intro hall
    by_contra hrest
    -- A bright last pixel, which is in no tile.
    rcases exists_finished R (lastSpot w h) cap with ⟨s, ⟨sched, hsched⟩, hs⟩
    have hpixel := hall (lastSpot w h) rfl rfl sched s hsched (hs.halted cap) (h - 1) (w - 1)
      (by omega) (by omega)
    have hlost : s.consumer.matrix (h - 1) (w - 1) = ⟨0, 0, 0⟩ := hs.last hh hw hrest
    have hspot := part1_spot (R := R) (by omega : h - 1 < h) (by omega : w - 1 < w)
    rw [hlost] at hpixel
    cases hpixel.trans hspot
  · rintro ⟨hh3, hw3⟩ pic rfl rfl sched s hsched hhalt p q hp hq
    have hs := finished_of_halted cap hsched hhalt
    rw [hs.matrix, part1, heightorizontalBlur_apply, heightorizontalBlur_apply,
      if_pos ⟨hp, hq⟩, if_pos ⟨hp, hq⟩]
    -- All of the row has arrived.
    refine blurValue_congr hq ?_
    intro u _ hu
    exact arrivedImage_eq hh3 hw3 hp hu

theorem pipes_eq_part1_iff_nine :
    (0 < 3 ∧ 0 < 3) ∧
      ((∀ pic : Picture, pic.head.weight = 3 → pic.head.height = 3 →
        ∀ (sched : List Party) (s : Children),
          sched.foldlM (part2_3 Rounding.binary64 ⟨1, by decide⟩ pic).step forked = some s →
            Halted (part2_3 Rounding.binary64 ⟨1, by decide⟩ pic).step s →
              ∀ p q, p < 3 → q < 3 →
                s.consumer.matrix p q = part1 Rounding.binary64 3 3 pic.pixels p q) ↔
        3 ∣ 3 ∧ 3 ∣ 3) :=
  ⟨by decide, pipes_eq_part1_iff Rounding.binary64 ⟨1, by decide⟩ 3 3 (by decide) (by decide)⟩

/-- An image of one pixel with all channels `9`: no tile is sent, and the pixel comes out black. -/
theorem small_image_lost :
    ∃ (sched : List Party) (s : Children),
      sched.foldlM (part2_3 Rounding.binary64 ⟨1, by decide⟩ (lastSpot 1 1)).step forked = some s ∧
        Halted (part2_3 Rounding.binary64 ⟨1, by decide⟩ (lastSpot 1 1)).step s ∧
        s.consumer.matrix 0 0 = ⟨0, 0, 0⟩ ∧
        part1 Rounding.binary64 1 1 (lastSpot 1 1).pixels 0 0 = ⟨4, 4, 4⟩ := by
  rcases exists_finished Rounding.binary64 (lastSpot 1 1) ⟨1, by decide⟩ with
    ⟨s, ⟨sched, hsched⟩, hs⟩
  refine ⟨sched, s, hsched, hs.halted _, ?_, part1_spot (by decide) (by decide)⟩
  exact hs.last (by decide) (by decide) (by decide)

end Result

end Run

end Image
end OsLab
