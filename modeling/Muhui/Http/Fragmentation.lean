/-
  One request, cut into reads at will.

  TCP may cut a request anywhere.  `recvRequest` still returns the request that its header section
  parses to in one piece when no token of the section is cut off from the byte that reports it; the
  cut may fall between any two tokens, and anywhere in the body.
-/
import Muhui.Http.Stream

namespace Muhui.Http

open Scanner

variable {T : RequestTable} {buffSize : ℕ}

/-- For every well formed request and every way of cutting it into reads that report the tokens of
the header section where they began, `recvRequest` returns the request of the uncut header section
with the body. -/
theorem recvRequest_chunks (hT : Generated T) (hsize : buffSize < 2 ^ 31) {m : Message}
    {r : HttpRequest} (hm : m.request T = some r) (hbody : m.body.length < 2 ^ 31)
    {chunks : List Bytes} (hchunks : ∀ c ∈ chunks, c ≠ []) (hflatten : chunks.flatten = m.wire)
    (harrives : ∃ surplus s, Arrives T buffSize T.start m.header (chunks.map some) surplus s)
    (mem : Uninit) : (recvRequest T buffSize mem (chunks.map some)).1 = .request r := by
  obtain ⟨surplus, s, harrives⟩ := harrives
  have hs := arrivals_map hchunks
  have hcontent : content (chunks.map some) = m.wire := (content_map chunks).trans hflatten
  -- there is nothing behind the body, so the last header read cannot reach beyond it
  have hsurplus : surplus.length ≤ m.body.length := by
    have hlen := congrArg List.length ((harrives.content hs).1.symm.trans hcontent)
    rw [Message.wire, List.length_append, List.length_append, List.length_append] at hlen
    omega
  rw [recvRequest_eq hT hsize hm harrives hsurplus hbody hs ⟨[], by rw [hcontent, List.append_nil]⟩]

/-- Cut between the request line and the headers, and in the body. -/
theorem recvRequest_chunks_post :
    (recvRequest requestFragmentTable 4096 ⟨List.replicate 4096 0, 0⟩
      ([bytes "POST /p HTTP/1.1\r\n", bytes "content-length: 2\r\n\r\na", [98]].map some)).1 =
        .request postRequest := by
  have hlast : Arrives requestFragmentTable 4096
      (requestFragmentTable.after requestFragmentTable.start (bytes "POST /p HTTP/1.1\r\n"))
      (bytes "content-length: 2\r\n\r\n") ([bytes "content-length: 2\r\n\r\na", [98]].map some) [97]
      [some [98]] :=
    .last (by decide) (by decide)
  have harrives : Arrives requestFragmentTable 4096 requestFragmentTable.start postMessage.header
      ([bytes "POST /p HTTP/1.1\r\n", bytes "content-length: 2\r\n\r\na", [98]].map some) [97]
      [some [98]] :=
    .more (c := bytes "POST /p HTTP/1.1\r\n") (by decide) (by decide) (by decide) (by decide) hlast
  exact recvRequest_chunks (m := postMessage) generated_fragmentTable (by decide) (by decide)
    (by decide) (by decide) (by decide) ⟨_, _, harrives⟩ _

/-- A cut inside the path: what came before it is lost. -/
theorem recvRequest_cut_path :
    getMessage.request requestFragmentTable = some getRequest ∧
      [bytes "GET /", bytes "a HTTP/1.1\r\n\r\n"].flatten = getMessage.wire ∧
      (recvRequest requestFragmentTable 4096 ⟨List.replicate 4096 0, 0⟩
        ([bytes "GET /", bytes "a HTTP/1.1\r\n\r\n"].map some)).1 =
          .request { path := bytes "a" } ∧
      (recvRequest requestFragmentTable 4096 ⟨List.replicate 4096 0, 0⟩
        [some getMessage.wire]).1 = .request getRequest ∧
      getRequest ≠ { path := bytes "a" } := by
  decide +kernel

end Muhui.Http
