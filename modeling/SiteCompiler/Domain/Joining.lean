import SiteCompiler.Text.Category
import SiteCompiler.Text.Composition

namespace SiteCompiler.Domain.Joining

open Text

def dual : CodePoints := .ofRows
  ["620 626 628 62a-62e 633-63f 641-647 649-64a 66e-66f 678-687 69a-6bf 6c1-6c2 6cc 6ce 6d0-6d1",
   "6fa-6fc 6ff 712-714 71a-71d 71f-727 729 72b 72d-72e 74e-758 75c-76a 76d-770 772 775-777",
   "77a-77f 7ca-7ea 841-845 848 84a-853 855 860 862-865 868 886 889-88d 88f 8a0-8a9 8af-8b0",
   "8b3-8b8 8ba-8c8 1807 1820-1878 1887-18a8 18aa a840-a871 10ac0-10ac4 10ad3-10ad6 10ad8-10adc",
   "10ade-10ae0 10aeb-10aee 10b80 10b82 10b86-10b88 10b8a-10b8b 10b8d 10b90 10bad-10bae",
   "10d01-10d21 10d23 10ec3-10ec4 10ec6-10ec7 10f30-10f32 10f34-10f44 10f51-10f53 10f70-10f73",
   "10f76-10f81 10fb0 10fb2-10fb3 10fb8 10fbb-10fbc 10fbe-10fbf 10fc1 10fc4 10fca 1e900-1e943"]

def leftward : CodePoints := .ofRows
  ["a872 10acd 10ad7 10d00 10fcb"]

def rightward : CodePoints := .ofRows
  ["622-625 627 629 62f-632 648 671-673 675-677 688-699 6c0 6c3-6cb 6cd 6cf 6d2-6d3 6d5 6ee-6ef",
   "710 715-719 71e 728 72a 72c 72f 74d 759-75b 76b-76c 771 773-774 778-779 840 846-847 849 854",
   "856-858 867 869-86a 870-882 88e 8aa-8ac 8ae 8b1-8b2 8b9 10ac5 10ac7 10ac9-10aca 10ace-10ad2",
   "10add 10ae1 10ae4 10aef 10b81 10b83-10b85 10b89 10b8c 10b8e-10b8f 10b91 10ba9-10bac 10d22",
   "10ec2 10f33 10f54 10f74-10f75 10fb4-10fb6 10fb9-10fba 10fbd 10fc2-10fc3 10fc9"]

def isTransparent (c : Char) : Bool :=
  Category.nonspacingMarks.contains c || Category.enclosingMarks.contains c || c = '\u00ad'
    || c.toNat = 0x1e94b

def isVirama (c : Char) : Bool :=
  Composition.combiningClass c = Composition.viramaClass

/-- Whether the letter that ends a text joins to what follows; the text is given from its end. -/
def joinsNext (before : List Char) : Bool :=
  (before.dropWhile isTransparent).head?.any fun c => dual.contains c || leftward.contains c

def joinsPrevious (after : List Char) : Bool :=
  (after.dropWhile isTransparent).head?.any fun c => dual.contains c || rightward.contains c

/-- Whether each joining character of a label is in its place; `before` is the text before the rest,
from its end. -/
def isPlaced (before : List Char) : List Char → Bool
  | [] => true
  | c :: rest =>
    let follows := before.head?.any isVirama
    let isInPlace :=
      if c = '\u200d' then follows
      else if c = '\u200c' then follows || joinsNext before && joinsPrevious rest
      else true
    isInPlace && isPlaced (c :: before) rest

end SiteCompiler.Domain.Joining
