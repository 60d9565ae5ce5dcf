import Prova.Chaincfg.RegTest

/-!
# Sample blocks of the regression test network

Signed transactions and mined blocks on top of the genesis block, with the digests and signature
checks that validating them takes. A digest is looked up by a residue of its input, so the primitives
here agree with the real ones on what the sample blocks hash and are fixed to zero elsewhere.
-/

namespace Prova

namespace Sample

open RegTest

/-! ### The primitives on the samples -/

/-- The length and the bytes of an input as one residue. -/
def residue (b : Bytes) : Nat := (leNat b + 256 ^ b.length) % 1000000000000000009

def digest (table : List (Nat × Nat)) (b : Bytes) : Nat := (table.lookup (residue b)).getD 0

def sha256Table : List (Nat × Nat) :=
  [(11235446676607560, 0xec7962190fdf15db769a1d2cd6870d7a9999015622396e92aecb146885e31c1d),
   (827321504576114416, 0x0f9116ac9980fc6bdcf7875457c203e86ef17ac5f593ca7fecc6c462fa52e7a5),
   (537815330112377640, 0x4a0f8823feffdeea99f8f8c6bc8fc5012ce21ec8ad5a9368f8e4d3cd75aaaa58),
   (305931986917066226, 0xc714eb82cf60e2382f17fbc826971746003d8f8489bc1eaa32a0ef2d89806886),
   (424967407925207741, 0xc0bd14818197f01ed827e140460ae2725b33e9d7e008855873e1b3515da361f3),
   (403883205091744266, 0xbaa83e01de26aeecafecc16f5f5f20f62a3a1bcc800c1b60bac810fab0c8b2d7),
   (936103824404114227, 0xfa71786eefd03ff9fa2f81a5060e8f1beaf1a727ed12917a33d3bcf65817d4ac),
   (374307158443240495, 0xa1ae4ada369baff5fcfa2307f711241680ea83cbde593561c4428a4c6852ed72),
   (686474750163080705, 0x0881c02b6feaa94f7568295589060095a5f69bf9634cd0790c44c10f051f7f94),
   (270616694814899524, 0x24bf1fcfe4e7004b5a9ff538eb13db6ec8935eaa0ad07d3ef800093c2060c3db),
   (8589934591, 0x0efd7b36e8b7ac90f08be47960f7a9a626cf4fb17f47afb1c099b7c01b1395ad),
   (929863275069362885, 0x445066705e799022b7095f7ceca255149f43acfc47e7f59e551f7bce2930b13b),
   (358709126632587806, 0x4f52d26978da8677daaebc31a47c08eaf2d91ce5f99950f11e2a4bc457e1b54a),
   (132632192818072425, 0x36ced9188668cd150645028aad7ed222efc8c32e23f82cb8679dd47b6e1a8664),
   (189199441489747987, 0x11c512919f95c88d2ef8ad743e6c3dcc38466bbf09c383dcc0897b0f5342d452),
   (756931528443974957, 0x16f54deaaf7a667c66217cf26219ab319187dec95d1e607837e52683c5eefa60),
   (771717420395572993, 0xcae5d4da4e4b84e1d6297abe374719cf39aa0de14b7d87c3acb7e4131553715a),
   (412549729287094493, 0x273b37450b1228771a3b18a6a32e36549a9d2a147245f7de3d67115eb09dfebb),
   (913375586814917957, 0x0a65d9cf54d8ae9e8b2ae126301dd94cd619642964977247b2db88513b6c133a),
   (309800583036009111, 0x6761138c0d21b2e6a894f1dde6fc92fc8f0e4b44d065ef320f266c833539bbdb),
   (242549083190542362, 0x989192ffeae26a1651e16e17a4c2ef57398371633b6e19dc6c79810f879ee82b),
   (507563037588812940, 0x0feb6661ca291499a9b4dae1f74d41616241f43a9a7e6e6352973e0caf689c42),
   (518456521272010938, 0x13c8e0ccab9ca4c70035bdb0e65d256c64b80b57e9ec636f09119d5153a3bf1e),
   (836887665427654627, 0xf02547b6aab727d9567b1d238309774a625ce0230adb82b88fe96f9a1d2c7823),
   (471749562427614653, 0x595ae05bafe50080d75dabba6bf742f23ef1a0ca65d62aefb5d16644c5509806),
   (35719653530705788, 0x01572786efef6cd445499192d4e2cee91ece77d7e1af842fea39e9df49579acb),
   (415045943753561887, 0x4819c2ca49993d2087d3afa8132a8e42b1e05dad798c89440a19cbd4d93a1abe),
   (482160364062592895, 0x8a9efe76b3182d51a7f5edcc02a61e49028a317e88d8d9d6559b922f318bdb9a),
   (788831720305214031, 0x296bdbe21a756549c21c8599a6bce6c5507747867dbba3f335100e34fe0a06c7),
   (241243029360734563, 0x8539fc1e03939e0ee42d88ece07a2b2bffa2e52d0c4e1173ea1b8ac82f72d558),
   (763058648792531975, 0x0309246494564e4a48c4f638484fb05e22d419aec7ddb08022b44bd531be2803),
   (180467875140343182, 0x3935123a16859a6aab593406e5f06eb6cd3e1e65c4f42415dc984ffc7a53d39f),
   (479583748308065917, 0x07e4ccf3eefab0fe88a3be6fe434f4b48a03a7ce3a3951453ddc656b9ecb4353),
   (715893548592296022, 0x3659ec59c13d6c2089a63c2dc84abdbed5fbda832b15c617f64f17c006663998),
   (189199441489747986, 0x66fc1f463be2dbf0835a14004dbaea0d85e2879f90422b641c9f2ab7f76c3b42),
   (530567963325968591, 0x467a1f2a7c411c4c76fadfa6d024fb078d3b130056bbc82b8642c51f5f060e6a),
   (913375586814917956, 0x53b4024cd9e12d809a775467695558773b47931248bbf10e9fe07efdf1838a94),
   (636157392890699603, 0xe45499482cba9514d431e70930347e027365032f2755770bab1d78ce90321dc3),
   (992714449069450435, 0x14bbf379246855a6e078a41c9168b17a203c0f68baf1baa47746a413b32d7773),
   (539854783734180741, 0x4312402fbc431e44feb5928f2a4b03f65f7c7ab5d41f533f12769fb699e3b5a8),
   (673740824209533787, 0x6887ee44ed18f3f60251a8793f04100afca7d3feec334287c84c52a3dc1e422a),
   (867323510545425820, 0x2163aa321e5f9bae476efb3140d832727a6fe0b5ca9397b2b7e0971668660371),
   (358709126632587811, 0x2852d741425f3e06fbe929e86f31f417cd503e6a5cd5b6be336ab9a6220ac47c),
   (447038068582260944, 0x5b5b3d05b106c13c1da01b5dd335c265aa487f05a13750855548ba87b97be6b8),
   (353788872541660452, 0x81589e35f039a0677ccb4995983ac7ce623c7fc6493b45112dad207155777a00),
   (225461036352724957, 0x585009cdd42bdea9ed5340778b963b73a683d564c2ad71a65007f44d1ac63ca8),
   (232757387277752365, 0x5069a9c04ab2086b7cf59746f914732719e7cd3fbace588c650e92eb3c7efc6c),
   (421786815554418758, 0x2ca1b908e38158930f987dc53093fd4f6b3fc32a382c2eca58dfb3ae0df3bf39),
   (53954807910511638, 0x53c18e81d1f3a10562d55df8787f52b76015d5b695246ab171a5fc0acc548f62),
   (337755690740451035, 0xaaa0b3010c353ac3c4f69b352d04576537d89817153c4bbf314808e95e2df807),
   (518421306920180241, 0xc3edfdbd9641edccb0ec6ff279d683d8353184a12eca672bcbd0b60ab517b36b),
   (617066459740880298, 0xa4928bd9ed9ef6ae4c88e523423342f607dde30fd15ebc7fbb83ab91cc314375),
   (547236412761253572, 0x32fd452ef8920d27750aa29ceda03cded87e15d5dffd580482cb7113983fc9e0),
   (661482595106123995, 0xb3832756251642b05ca8a6874dd4b49b85f67f86998e9648d86a69453d7eff02),
   (735935667653236761, 0x5d2d6bb8c87fe4dbea31ee542258fb6bb9a4f10e772b141287261091decb449d),
   (750503111659064759, 0xc83f66a1a8b19564009c79b27bef98a2b06cbaea2b39972521028848ee97bb7f),
   (761671213984451300, 0x4ea036d27898737bf0efd6c01e793140d84692413f7022b727a03aeacd3c36f0),
   (366792980855957231, 0x4296beb98f863e92f5d79cec0fb2cd182af49e1eb7f200f85024f9fc23ccfb45),
   (591256359386774131, 0xe13202a0a26316a94f696dd76013d855bc230c692b7f086ec0ea3c54fd6ba688),
   (663201100774998135, 0x1b0f4e027aecd020c70529d71c931e8520617db670d6e235e02a474a151c3ca4),
   (207365719727824693, 0x5af7bdb108371cb86419beed1097365e76d3d61b4b900da0715f6fa04fd97548),
   (501284988403916931, 0x8c7cc99ed780d6f07254feb46156399ac15f912d4200dafc5eedee2638986210),
   (365854230955326871, 0x48a6d0a6fe81d7a6cbb56fc12c92fea507f304e15899494eae3b60302f726326),
   (60906989615412074, 0xfa2abe193161fe853f1202eed00d0d43afcf3aaf44b009bd0ff51e685249a817),
   (100254742160124663, 0xd405cc3ecdc62bac18d5cf950239af449526f5fb1abefebc82fab54d9cf6aff5),
   (959901845613889919, 0xecae678b0c708ab0eaf1378b4681b4dbf007d669f514766c03a0762f8825b9b0),
   (948562325575554891, 0xecc3177d3ed2a7bf7e08575455d375c0c7e198f118bdc5e351018815a23155bd),
   (294401647831673837, 0x973bd2228fadb03b5c08e063c90e85959434bcdb9b3e6c6cc1d8ee9bc27dfd76),
   (792585151594182924, 0x6482df5338aecb105074d1f8c6e2ca4310b8e14328b5f26501684d10a698c00e),
   (38905763426838626, 0xe6b37ab988e338d350279644b12c690fad16a68e904c43433d4dccd54d7726ea),
   (779040024392424034, 0x844d1a0b4a791bd24e4ae858bb3005108d05b2961636cea54e7cb85d7aa042d6),
   (765297441539025842, 0x91fb178dacc69afd808ff6cb78ee8bb7a1306dc22eae57a125f40f03f163c76d),
   (332527026128983274, 0xd5e0684710a191c6f5b3e88697b5b664e9426445a4a0114081c569df1a02834d),
   (724720072766163958, 0x3a272f5b4f2305522b139efa3a62773f984b6958c10089057c3ebc77e51a7db9),
   (611418709106735343, 0xb61e80523c402d6ae34f4a786ee1b7aad09184b664059e760f6bb64a1bc51f48),
   (903963180320047200, 0x514be222f8aecce823acb9a67c716687a104feff53d0339a160ab65541fafea4),
   (860869178840582051, 0x30e7a214cc7809e529b18b66b4764a38404d2c24d3e588a608d64d08be827c74),
   (146862345669563925, 0xe0ea4e5aca6b15c3343ff0a410f0d7e266fd27d4b0581fd56da79f6bc9990d43),
   (448940962892325088, 0xe910e2c4baec35d222840cb4c902a88511ce6a453c492a6fc5a99b8b2b90ca90),
   (641971709976033578, 0x364de55f8bf95a0974606e1be19df9f65d2aac3069f6e6bc3af0a38e14f17c22),
   (808276696330844016, 0x5ec8adc2c5ade1e116322585752b575c0e576e46f67eb104e7583b1631147d4a),
   (462391336288585600, 0xe2e571ca17460c34fa7626a49b3f359ba686f31f19982da65a741b58facad0e7),
   (229438861414423359, 0x2572bb5151b413dd4321c68d3746931d71f06572d455578a053d098d6c3b1a26),
   (676504526177692602, 0x3bdc6d6f1688203b921c1cb013362640679fa24fcfb755620b313f9bd176ce17),
   (207374338732779289, 0x9436819e859d480fbb1530656915722575417e852e6a9b0018294921f16fa4fe),
   (780567920900343186, 0x17d5345f093d576a29205bccdeda31dc283fd2d1ac8516c9a4cc33a9d6679676),
   (952293765761823987, 0x00513365daa9252c7995c9c96b5d06947ddc188815f0528d10673f02fad3fbb2),
   (727889151171431999, 0xa8f1b2f4b26cf2b9e6a681d4825d40b9badfd9626767cbcd296efeade5edc49d),
   (28049461548736480, 0xd37c7886869d6fa8c092d8998af57b606561a5042f3926ee6f420df57f204e5f),
   (559383522155207324, 0x1e1de241abd1e9ca9061228fc3d7657dd7e791a9e861c5b858668c0f94d98932),
   (972038633859634765, 0x3ca12eefba6ddf9971b5f02ea7e5d7298f9962dccfdd52f63ab51bfaa726206b),
   (314158624669128714, 0x13cc5d9fcf79711f48e4ba8b7ca808c82ad92ada3600c4742d3ffb3a278d9f05),
   (504655670282157281, 0x9195fa21b91bd30103281fd1788c4f969785fe627ba29384d4055d82507efbcd),
   (56094658028858537, 0x9f57a89fceca6be3f6d8b12062e5da190c349bd552e061641eadf73b6812e245),
   (864382304849920673, 0xfa709f07fef80c41aaa6480e880113a13649c4cff9a6e9cedc39b9a26fcbb900),
   (224598608413312496, 0x9adb2af4792f6041f58b8316f15888dbee4062240dee11a1c19fa28902689318),
   (267278974898822394, 0xfcdbd27bfa84ba2c1c2d63a1b9d4261afb6465a7bcc1135678322e90a8c5ddee),
   (547058379152485368, 0x85a8edff2cf03b01e6423fca36b5748f79078b354c18ce6c9732bcf8cf58a9c6),
   (998202724001884033, 0xe84f4855a0cc3dc04c184d099f3e664b60bbfef58151a8a742285e3bb2c8d9b4),
   (336481011108302338, 0xe237871630e8fb9b96ba99ee7d1e60b333dcb43194ca061f8b03981b93f3e76f),
   (661324465022076217, 0x4e31ca80cfb968eb20c80e1b6de228f8912c1e76dac451c704b5cd63f746d05f),
   (492433147054522304, 0x599248fe065e4d798bf76871a6bbb53d53293323524d156c0ea685b89d45ed7c),
   (389090799923339505, 0x22871c24fb487211b263aceb224ead835c13beb7dbf830187f1ebb19d04b4a39),
   (2883837718483759, 0xfff4ca1e001afd1cd8b32027c253ac77973af919500862a313f01006a48ca240),
   (92246402693365286, 0x52024f391c671afe6500869c84293ae66367445994378dfee97fac4060feea35),
   (929905821452878548, 0x19f0e1bb8a4a741f67d4296e7947c06579eec8a313567d2df1aaafc49e1ec059),
   (425641012078681650, 0x58be80d91ad94027016ab0205e5ff9e4c58eeda9e32d374d900c5855f2d46ba0),
   (134511134376364725, 0x5e91846685516c110eadc4fbe43e34325c3a6e397fb6df03226aa74f6caa1694),
   (4852527958165745, 0x856301a97b4a69daa556f993f308d8abe26cd4379386b1e3737944bb57321119),
   (930802683498850715, 0xe7b81118ca10f996bbe97c9b358ce983e2a744834ff19bfc9d5f529029acc4ef),
   (345019445134927764, 0xff52ca57699af513d9dcc61b1b42b7771b73d9383843feb6ec301a255267dce5),
   (838492630907454182, 0x7fb86708707c0203c3346888720c05054568200f465617824dca2f34a00d4b9e),
   (947150713500427036, 0xdfd12923677edf78f46733d47d420389e8a6796f2a0012de91877b92c807cd0f),
   (109516273042369225, 0x0ddfcc8fec5b422f85224e79957b0603182a2111773f0604d37c9508255de31f),
   (513207972233492168, 0x90fd7636275ffa0cc2e71fc1acfc3ca9a9a5684684a374cf565eaf33d587ecb5),
   (987923420999609859, 0x6a9f4524e2f36ca1ed0b0914602f6cbe152b6042e194b0f9becf7fe5244eea55),
   (505860460612118616, 0xf4d1af8e5565366dd995b2d53766d780970aa15c7325271829addf0f814ca6a1),
   (752761354538369901, 0x4b341da28b0ee9cbda0a1b7d32b6eef22840ab684cf808bace4836f40bcf82b6),
   (700312578047736995, 0xd7310c1588122138c195ed79fd2eb1240872bf503e35900bb9e64aa29ef90afb),
   (36304058087287226, 0x5aefd0d9aca3ba375f789bc4f8525022547b3dcceb2a2a7b4927f3a9c5a9434c),
   (723089242739879210, 0xa3036773ca877e26f254a57e34c9c2fd2a38a7a0774aafc497f184320883173a),
   (881391571030984149, 0xc806c37e78f5d59ddbf9e7e36619d0505fe26a91529460d43ea58c2a8972edea),
   (193888859984770424, 0xf1ac6d7de2060dbc42f3ee21c4b053cf2efe3ea2aab9b4292fb0719aa464a16e),
   (445871974836993643, 0xc587225e1e93f85f26cbfeb0ab60f3d770d9b118a34796183c3e9abf9120e637),
   (908801608962076423, 0x07e6ce853e60a3aa0841eec9b91a14e0a5f838e9317677ab1dfada0b7f1cc465),
   (148591521507957230, 0x2ae6dafaf312feec402af452b6b3b857a4de8ddcdebeb3837d8205dba7a52564),
   (387811250249346692, 0x9bd9b5ea215d785d8b2f7af41c01a25720c0d206418b7f4577021777bd2d8bf9),
   (969768565749128828, 0xcda9a6c79fd23c0f78e8cd00d79b6cc734081df7d3c73886ff438e1cf73007d0),
   (877174516501115892, 0xbdb6d92546e521b3d87a19d48c5289a21c5a84c59cdbc47ee051f18b3f05898f),
   (910377614826039823, 0x303d5a780eab0fa7bd5c0e4ac36cdd3b56de8faecf9c8da58fbb51801b1b8d9b),
   (517102055541876336, 0xb1a014d4866c5cfb94db2c13f9ddb48012df3b5b17945c50d044f153f03f2269),
   (222337061168204746, 0x4284c85c32e11f426827a606e5fee1a457e0b833d6a61ae2642e0a78f50fb9ac),
   (13296719420002364, 0xcf9e5bf0e191a96996dd090593aea322e92e14ca6e109fc764b8ce07ea496d8c),
   (250203997902951948, 0x725246fb88ed0896b4e92282168f8bd8e3c1ed5e88777cb0a69600c55a13b21c),
   (179014307656029136, 0xe45287bb79532c4b2633ce0ee79c7992c5db8d02a1c597cbbe990c7b2769df1d),
   (808013499564749549, 0xbaafcb30ba4213ad6d794191bdb0f827a52f720ef5c0b274ebc5bbaa4380038c),
   (175566829096511242, 0xaec017bf921e2ecd5f2642ebeba12dfbde9754ed9c63c3fcda04fedc16ba1414),
   (123676362487177922, 0x8f6024d402a185446abefeb474ab3b4e2939897ac12d60ce7911f13d3f8ea448),
   (438369998691736587, 0x23ba6df89460a2928d9e79834c81be826563b83cc7ba86e3fbd2bd45db2a10ae),
   (829122769140811977, 0xa399533bac14045b445245847f6a6bc00f699fbe51f91156bcbade6f11030795),
   (712912390191409897, 0x265e818b90302d945dd261db183f8c8581f818b3bba0823aa82ab84a56407c98),
   (690740479969859818, 0xd38cb5583f11e19128b7691d1a699b654e74e67ba5e56b992b81ad77babcc37b),
   (862363187813103041, 0xe07b2e930486451d4262bb09d3b5bae4f0b00b8d2f31aa346d7b7a6e3a9f8a38),
   (648926761654897339, 0x2d899a5146dc8f73e3dfe2ffcc5bd9b3589b1e79443d0f5f9bde61aaeb672ceb),
   (200682395073345890, 0xe13fce564c3dbe53eaa839bcd510e062597d4b44c5c9198279cb29cddc3d25f7),
   (533848142005336079, 0xcd396b013b0663739cf94ac0f8ad5dc9a004f63e0e75244e71777fd15cafd562),
   (682884525086420153, 0xfe87d135a04e690e34a82138e2f365924ed91dbeb2733c66f28839d0d25ad3ee),
   (378241248044391513, 0xfb3fdec157664fc70cb627f1656d98b7ea2ded0d471af385cbd2257d676e7bb0),
   (926255687771976165, 0xb0132608115f0ebd37dd550f7b0c1567a6e4a3ddccfe394f497c3a1a9c531d76),
   (160906819706297151, 0xde47acb69417598b9f58650d79cb78675627389b38731d929150b42443477510),
   (81568235452229901, 0x121b2b3aa8d2cc062ff91526f674c7edd4f03c6fdb3266fa52f79e3556d0333c),
   (927410521354266081, 0xefd4c4f5f9536fd5fc34e7d40c8ee5adb7c53ad285dc30e2406f0d102688cf50),
   (444188461260428514, 0x4f98c7ab4d3e2e1dcb058de6d37c2c498f69acbe4f62321295bbd33cff0dd8b7),
   (522553905892080930, 0x8a2a64ae6bcb2525cc498b7c25982cf9b95fc73b52625710b0e934700e479a18),
   (385911749020054567, 0xc9a93f52cb7aceec80b1d8d7940c0650cc68272f6b308082b14b434d756dff8b),
   (578873587402454689, 0xef6db44d166ab33ec8e007397ca7e955f3b18b00c3ef341b83c3798d483924ac),
   (128505973640152923, 0x984178a606b9d00aa5f06e520dc4b84947b8fecfc29c5a703ab46e65c0d2d6bb),
   (548124812966379145, 0xf99075fb69cf760b8ab717a5240d0c4041b636ab567a261a221644cfb95c1a20),
   (582688040914085155, 0x39362ad0ccc08c163f2770f8319f5cc000481403495c1cb3194b0200466bf193),
   (201607975265204425, 0x8b8bda0a639049436032c064e94ce34b54fafaee3787d656d6e48e87313b02c5),
   (608736521561918141, 0x62fa44b5a2371f87895e223a7f39f5ef4a6a9cddb1bb3d6dcc0f2e508b5b3248),
   (80105775680980281, 0x009f3de536a20fac8212f51dbf8ea435d1acabe7e609104dd6ffad60856f1135),
   (458242886739280143, 0xa0253d34b37b305d9b339648dff6e677de49f6ea81a43799475aefc9f2c3eb41),
   (259322824513776035, 0x6fb4509f28d21811742c308737a20629ec23373140787d6b150b817cfdf5f879),
   (352770993217481442, 0xbe9503b8365793b69b4a7400d537f256c66b85575218a41c1f6828ef659b4624),
   (258589659283314918, 0x7a079dd59901f3f45929d4aa2cb2fe00f163deeff1eb216b38f498cc221acf62),
   (187083097634925868, 0x3982088367e70b404d7d1fca16e0cbd42c1eceafc060b37d835426e766554b9d),
   (453857087195482476, 0x5053d6f23ec6246f2d1bf800acb137d2fe664706beb05425309cbeb5de49b2f5),
   (243239715652938833, 0xc7e9df1e55d5e11bade12a1bb9ddee71b3e199a49182ac45cf938abbf2286ea1),
   (727133134876048758, 0x70cbf7c625dcaa9089410991eb915216d5d144375dbd2734b3e9dd8ae2aca215),
   (438686812239495730, 0x7e46f1bae99feaff4e0bb87065115f9e4ae76abd2270f04405bb05ca72533d86),
   (218868621071711678, 0x8dd15e6a9639d78d47fc91b9f1196d55db6997be6650357b1c18f6bd7d276bb6),
   (479919241178740162, 0x6bf174420b01a653ad4ba6f5f32a8c92f2e2cc3d2166e006fa2a779cf2fed3f3),
   (865541136577302338, 0xdf2d9796d9142dbf7b7f624d28fec5145b52ffe21ae4efaf04301b2670450cbc),
   (457800336374012003, 0x9f29f14610d2066dbb83f9b9fd734417037fc7148fbed662c848cb6b652e7527),
   (756422202738751032, 0xddd725169f68082715621531fd161d549985603b0ed2cc3e02dfbfe82778f009),
   (919846399491806043, 0x12d924d03398a4a11ba3a33479ad6ff9d8521615a007e18123c91269ca0aa628),
   (304169720396042666, 0x70c0158816e55759e7173ea098efd39be5e1a2e80699de457704abb3cad8765f),
   (871008154972254672, 0xc13c57f89c511b114399e3e58316060790f7f38f6d64154d77317bea78096eb4),
   (23357380131034792, 0x37f1121b617afe204b8f8bdc3683837c53226dd5e66f1e93095eed768878e869),
   (373343988861446980, 0x1084526333f7f8902ed911272a0673e7ef3e9141ae36356de419b32535eed518),
   (145394669301894734, 0x040522633bcc1b54fdce4c2c1bf77552eba04639a31bfa4e57a7ebc9634bd01b),
   (249775435290203152, 0x956e575366ae0c223d0b695c9e944b7f745308dd2f4709a2137afdbb06604531),
   (801086915758748212, 0x616b71a11a9e116e4dba2598ad1f58c516223f09d770300ea3a6530742b8d40b),
   (17794127001783676, 0x5c458022d1744dfa0000a91271273433fce49e7b14c8dbe5bd2e8a03145f2c64),
   (387337547965044391, 0x1fff8dd262d9dc091fd64a1b73174f45e8aa2cae884603c974759e16a00af893),
   (923990921888765817, 0x5ee5889f517297d4387f8085745cd51f249c0a7612b8338160fbe28a329b7f5e),
   (92490247515903440, 0xf4665b35c94c0ffa5b4c10da1b3d8dd4b4cd10d7ab329343dce6d8cc346a9e50),
   (915120826860072919, 0x324617cbc6744451c9c391c290e3e144f823a32cf82b254360274732c6070eb9),
   (308598619891080120, 0xfa4f02cf8a1dc4201e3baeb9d84a881d9d81436f5252f0980b1ca9fa4b1ffb5f),
   (939115574187932647, 0xd0dab455726a87c17f872c088167e97e213230a5eec994c02d70e24bf540c790),
   (139950657799207972, 0x9ece343157110218788b02ca315d31c682e452b16ee05d75e35dc354b680467b),
   (256588617251031908, 0x1ed35442e35b36101f8853ebff1ea2f092e3bee70a3edfa425c8f86ef16af502),
   (996660526816073541, 0x1841ae9f7c123dfced6778c107f29e0247eab7bf7c22a4954470c423cd511196),
   (702125075269287276, 0xcd37f4b0056a75cb8643d2413441a227e4d6ea05742516406213e77e4e3acfa8),
   (593015426179103806, 0xfed26e2b56a2aaabc338dd0f43bff8a75d25df98063f797362f67a76fa990960),
   (191573505415724632, 0xb634fed7747aa4a7cb6574afa4c7cb478676ef11e1a04444bb162615902a1417),
   (4154414020236065, 0x72e6b056065f8b7b333b2cb07a52847ebbb9bbe26f3710914505f160490e051c),
   (431942620368205161, 0x83bfeb91378b3b066914fdb1d6f7836fb28273d8ef1b45b2689961d8d3e84875),
   (246056339799146276, 0xb76f371fc844a257d7faad37ddb998a9c0d538a38ec3b87773815631bd40e5d5),
   (190009899559481354, 0x0f190f3f9beb96cbba2d7da05a135f9dbe0ce3cc3a51f2ea8ee3bb7597f0f37b),
   (492286737718023084, 0xdb5179101bcba373e9127870333dc6562ee4b0d99bd4b74e6fc51596e4a17417),
   (622672419518725569, 0xf7cf52e5e9fa827bab01e6e075bfc6509f930078e13fb7733a20d5d02278edd6),
   (784325021701696326, 0x8c8d88a4a8dbbd729fb94072f90efb71ea9d2a624b786a64af851b0c836e2fa9),
   (795021873377943449, 0xce8e890c1319103e76b73008fdec2bd2ebbb866402d1cb5294272cc8345d05a5),
   (54162561861962912, 0x9dc7b64bf927b24b3b747df5f75474748f7e74107aaeb568255c73e1942b99a6),
   (936731611728337642, 0x5eac91b23a3ff4067a3779ad8cbd061b4a6e967447daebf163787d9bc7d9c71a),
   (703392748205603984, 0x4e12a5395e97b72d021b321c36ee0d5a159ca0f679b68e09df8c817c5b108372),
   (492262632663397910, 0x437e0f39eb18f5396941f1f2af730d51ffe97f5831f5d51661ed31e16cc9b2d8),
   (539808866113356068, 0x0701527cee933b90cc4d2cea2a5ae4a1ab265fbed5c24ace422112dbfb43f38f),
   (275196666742313868, 0x7fcbe5a5d845b6a277fefd32ebbe015091c8e49c846b0292b5f9df295f24b0af)]

def sha3Table : List (Nat × Nat) :=
  [(786422984443006616, 0x7255f2077d7848c715ae470e4524ae382ce6185fa6ab43b89b275847d822e2e0),
   (254950885724789151, 0x19e453b519b5a36da43599c658c37a9b7ef8965a47d051121f7a50a5fd20b900),
   (95802887142386706, 0x02c33b825980b03f1f4ea09bbb946f4c9cd873a4d336e7f42086f845f69b8ef4),
   (527579609375443819, 0x3fdcbbbbf3cc5f11348e161bc19306f4ca037f4d4c4dd1cd7d761f6150a27539),
   (166919383163293221, 0x050c526bb1179c9321e180d6d9a422e5e0a98173edd62a46c3fecaea31776637),
   (368213742925290012, 0xd7af4fa399130dcb687bfcab7ba992e54f856f03063314268b51354b100f92e5),
   (675418481930383130, 0x03f9da148fb63ed114063202817d81077db28b0911e97df797c1ee35449d04db),
   (885814346951302977, 0xb380feb31bf36f922508ec4559f69f27b8e4bd7d7650a1dd7fcc057ae09af35c),
   (744551240987779492, 0x021923efa65baf81bd1a04999e7a102f10c466b8b62df82177e5673142b6297a),
   (314572229200159145, 0x57bf92e1e4fc88db7a124d3d8da71b30928e9382e0bb9f447f50d3a060a026a2),
   (930415107082905320, 0x098c18d14c64fb0be8eae3d9d1b1c0b88b821f7997c81cf45a863654e9ef54f5),
   (543075720967900684, 0xd2a49a3a90119239bd9849f1ad39b1a3a11e8c11c7244058c379afb039c425aa),
   (187251154289516559, 0x01f7150e70578589e0828de9b654f188a849b22f09bf7d50e3b31ea30a54a738),
   (743373930779242803, 0xdc82bbd0d6804794f2db362574f45eddc08bb8da89f1d2aea32bb850b4877e54),
   (426356505718680028, 0x0ab29f358557c945dbe8ccbbf034021d2ddd3558c1ab642751515c43b4b423cf),
   (274210159400595232, 0xc4cb5c4a08f402ea474f553659128b9484aebdb8822501cb78b4bd371fd85591),
   (408661956835522722, 0x008df31193ab8fba2235aed4f06e033439d2355c28d3724649985600e9319b5d),
   (846305010047045355, 0xe093626d80965f48f4fd6a48fe5820c5c79f2699057035dbb1c55f9cd0701b63),
   (40045009648231734, 0x0639783d2546671b6c859f3f3aa4b1fa43f8a6eb5c99de608e28860dddbd6d22),
   (156931260423364776, 0x256b726b7c2cd646761515c88efce99d607adf385d4c23dd28b4724e92c43136),
   (652959152195910474, 0x04aea536aaa446e65f0b718433a7c60baf697b577b7b9f16e0a23b21d89ed4b9),
   (251958042788889488, 0x8687a4fc208bfa717cd9da053f48a7a8c3f1205a0a42e56faeb76ad667f27ec8),
   (300559398363827041, 0x0aec4a01615ad174a8d73876b2429f3f3a42dad27fed3802df661f3177c6d697),
   (763159400110070628, 0x0db1077c06b12f0f5ecf2a550af3080b89e04ac9333051b59d848dbf0e0a48b3),
   (333755345971570977, 0x152557114481def494f20e1648d8c5bb916f9ca64057c23e1f2c983bf2c3ae68),
   (941464197683443311, 0x09cf997a94c4030e636dbbf64f8f2492db75e89035f405ad9f9df17d5632a4e8),
   (960805619279365097, 0x1660eeb9db73b9989d7ac21e9264b9dbb19d19f63280614130a5c4a6984c4313),
   (583095785759628611, 0x09ce4de625d05ccae526a4be0f5f444ce7760fe1f45e153f33ada8bdee2c10d5),
   (967614887971254101, 0x154ac58a15bdf2efead51a592790d1e4b1e6e7ed842fffc5efb12633cd399e0a),
   (156613448104227091, 0x02418f928cd6b8f59bc2955a519d17b81ff08aa75241400ef3745a789c04b741),
   (218012790624171707, 0x3556bc0fee59066b1bb2df70dfbf3f1c77da4a10297696414efca3a773223b09),
   (970298263812127839, 0x00e0262b398265e6d65efdbf995684a171f821dff4c94f9f8544617cd1ef95ab),
   (137163713870126579, 0x3e3314a19f936a0b7a7cc4ecfda78fe8a8535e50e1d08b80ee3636822c419469),
   (946641424188184497, 0x05cbb263fb58eff732ddda49133e3d91e2f7e1abc752d852e1ffc76a5ab481fc),
   (313990845355554227, 0x5e0f1905aba53296a4cd7e9372cc6c81d13d96af6d5979849ef3c77a05c01bbe),
   (868507314538612516, 0x0df21078475b67ad1bfb7df4a6602e3b7cd4674a9ecb75207c438e14ef3933fa),
   (190790773981092349, 0xb8e802bf4899ec9ae6f00f400e71fc08105b0ec4ed928882aa7979d62668724f),
   (345557757209960223, 0x075043e1fbf240997bf275e3f6b6722ec62d81c29a64cc06c9cca315cd6021b7),
   (419988501574441444, 0xd610603b06fbbf439fff3fe9e5698b591a6dfa774de3b86f2b3fdef2eea84db0),
   (688422614541683764, 0x01be023c63bc3b1412b2acf28aa007e50b8160d638309fa26b930fcdc3673fb1),
   (735799170069479418, 0xa5ce0ea10ff5cc11c7e959ac300843aaa321076781c9346f06f3c367c8343409),
   (778622986496209806, 0x042192e255a6da2c60b508a8878cc638c72b58fe9c9b4bad52fbd4a6c1156376),
   (339220317958582464, 0x81d395c47662388d2f09ea852f0eaa904823625563a36c10c2f8b79986355402),
   (162001105961213907, 0x0d3029e3212acba85c5a4d66649e52662eb83be1bfe5d7cb267b4d0f02f5852a),
   (628208830353483289, 0x0922e2f865f80f6d451be42b690903db7c8f3b2eea864ff352bd2716dcf383f6),
   (701465257334567748, 0x01b682653d33226982c2f4d2ca626c8b358b6be14a8314bb3ed94632c06697af),
   (238332086487275938, 0x62e42c1c81afa7941a404793d35ecb3fe294f54c08f0a4097591a70c05817a27),
   (834612078793887897, 0x08eef143323d11bd3624017f63af11f09ba7d1e7b109e051bac97663e08073a6)]

def ripemd160Table : List (Nat × Nat) :=
  [(693437049998404587, 0x746aad01eabc9bf87fcb297129cd39ec99f44f7e),
   (53500118866030411, 0x5c4a11e178a616d5a133a6c8ca7fa2e2d4c65154),
   (885977934794501410, 0xba3f5e58f0bd30744cd635b4a11a6555d7045362),
   (691888893150172876, 0xcd8446da5e1340771666c549bb01ca9a198e5332),
   (984562593066512091, 0x8e7ca5c075878d858fe0ac9de461a0bc04bfdb35),
   (913138998658935758, 0xf9b005baac357f7dcf1c8565be6a168dfefa55cf),
   (640303605226692641, 0x114264818a0add97a9683ffd17a9db3beaee9443),
   (152819273060772851, 0x4cd165123fc24a4cbba13ad05ec6068f0f147d90),
   (507924368144686373, 0x96f0d91c7ec4f92d78857c711618054bba0664dd),
   (971756671848939199, 0x2ce61ae8bb87137651c61eb6140bdbea6623cb17),
   (311104177361442226, 0xaeeb3ac64d0802a89ca354f1ef61bfd9c2c760bf),
   (473364852127619136, 0x8dee423fff09e1d3458dfa68979aeb5a5ebd6602),
   (22987847107911493, 0x15c2fd7a4e37712b1ffdf2102bf9e96a9bfe92a6),
   (988957588845893473, 0xd1f2a79d9725c3bebc8bfde64ea2256bc1809972),
   (953596563593977697, 0x0c9d16b3f89bb05d5f920ed88d30d8dea659866b),
   (458599263156218681, 0xb8a17f83d38200019c48ee79d0480ea3dc737fd4),
   (22191685064371153, 0xe4c5edb0940b76fef21045c4094e90c68c89799f),
   (574240779114089063, 0x7ba11adf82c93d4b82634004e564aaf056c71d67),
   (112785328180098400, 0x6942f54279043598c4847e0bdd4237565f016adf),
   (480164720524138424, 0xa0179ac10797ba299f8997144c00b05a1cdbed9a),
   (864066848095252521, 0x51f846feb8bfaf058b832783335847a45257a32f),
   (209056079323049482, 0x46fa535d524a4b3f7c7a5378a20d7165fdc699ce),
   (209046388603733837, 0x73108e8d2b83f59b4cf80ecd8d742d429c2a21c9),
   (576456195364265286, 0x3d25581ea00c2e7149e523b0e9848afeec383bd8),
   (896910122492852224, 0x1ff726a6b2d95b22081f93e18edff71a1acf9054),
   (718132210229677291, 0xf5fb2e856ad84666a554bc61fc2ba013b612336a),
   (608408816988030186, 0x395622bdd6126117ca7800d2ae56207237c09b42)]

/-- The residues of the signatures that verify. -/
def signatureTable : List Nat :=
  [15111292269541012, 27350089951195533, 82637492037989453, 84606480329175206,
   89810028258138810, 118884546893509029, 157830967257904123, 161361360786874845,
   171393748966929729, 208729203757869039, 208897356875078539, 208966968020030158,
   235117178194877210, 245968534374016865, 251623117034102836, 280021543898644438,
   299643667298988843, 305369046486273608, 311924632221205926, 312259980406723363,
   312655944237655663, 341468061161440873, 342315156403941294, 353363772988259656,
   358047282088084010, 376242694168080041, 388517542854023527, 388886721569077560,
   408662917637690036, 409476235010396481, 417868396758048460, 432696632110342788,
   452566260539142085, 462642436274256472, 499679767828354039, 539860598335524499,
   594129488228791736, 629673395054155338, 700259280016479070, 751599865130658956,
   852597641717327501, 860101077810498472, 900344325636683778, 957597507691192707,
   984575707393892434]

def crypto : Crypto where
  sha256 := fun b => BitVec.ofNat 256 (digest sha256Table b)
  sha3 := fun b => BitVec.ofNat 256 (digest sha3Table b)
  ripemd160 := fun b => BitVec.ofNat 160 (digest ripemd160Table b)
  sha1 := fun _ => 0
  ecdsaVerify := fun pubKey hash r s =>
    (pubKey.x + 2 * beNat hash + 3 * r + 5 * s) % 1000000000000000009 ∈ signatureTable

/-- The network with a limit on the blocks of one validator, so that it has to keep one, and with
coinbase outputs that can be spent in the next block, those of the genesis block among them. -/
def params : Params :=
  { regressionNetParams with coinbaseMaturity := 1, chainWindowMaxBlocks := 31 }

/-! ### Transactions -/

def outsiderKey : PublicKey :=
  ⟨0xf86236d004c9c43a203cac349a50bb8f8c67f95a358f95187de878912b0fd0b6,
    0x74fecce8fad7cbb36f15cf219bcfc042e034bc7b50d7b330d24d663cb97d6d81,
    by decide, by decide, by decide⟩

/-- A coinbase transaction without fees; its only output cannot be spent. -/
def coinbaseTx : MsgTx where
  version := 1
  txIn := [⟨⟨0, 0xffffffff⟩,
    [0x00, 0x00],
    0xffffffff⟩]
  txOut := [
    ⟨0, [0x6a]⟩]
  lockTime := 0

/-- Issues 1000 atoms to an output of the user key and the two ASP keys. -/
def issueTx : MsgTx where
  version := 1
  txIn := [⟨⟨0x0f9116ac9980fc6bdcf7875457c203e86ef17ac5f593ca7fecc6c462fa52e7a5, 2⟩,
    beBytes 40 0x2102ef7739dc67d38f2804a9c0aa1add89a992ced5f37e580ea8ccbb5742391337ab47304402202e ++
      beBytes 40 0x17368f76e96d578bbf0efc7c0c7d81bf5b305269c9a85ab03901fc22820683022003a523dfa613d3 ++
      beBytes 40 0xca15d23038c7216fe2a2121d677427bdd58c1f52158a152cd90121021126d3d6158cf4f47eb2e08d ++
      beBytes 40 0x12e9fa46d8da7b7e401220260bdc46446f1337ab483045022100e44eb0288f268a326aa67f937220 ++
      beBytes 40 0x915ab9159c2df7cae514137a5274f632684b02207b19bc9d0d895411f484d90b37b9118a59c04820 ++
      beBytes 13 0x94b2010297cce358c33341f301,
    0xffffffff⟩]
  txOut := [
    ⟨0, [0x52, 0xbb]⟩,
    ⟨1000, beBytes 26 0x52147e4ff499ec39cd297129cb7ff89bbcea01ad6a74515253ba⟩]
  lockTime := 0

/-- Moves what `issueTx` issued to an output of the same form. -/
def spendTx : MsgTx where
  version := 1
  txIn := [⟨⟨0x6761138c0d21b2e6a894f1dde6fc92fc8f0e4b44d065ef320f266c833539bbdb, 1⟩,
    beBytes 40 0x21025ceeba2ab4a635df2c0301a3d773da06ac5a18a7c3e0d09a795d7e57d233edf1483045022100 ++
      beBytes 40 0x8caccb56d0bcef92111bdc3d867392824ed01a3ef7f720078452696888bfa51002201ec9860c0f20 ++
      beBytes 40 0xa77a8a5ce2b5fc2805b6318bf93e5f384e128ef1e0599af8c8ca0121038ef4a121bcaf1b1f175557 ++
      beBytes 40 0xa12896f8bc93b095e84817f90e9a901cd2113a8202473044022039e96c8c70cf02fc0ae73cbe3702 ++
      beBytes 40 0x48fd498a39299eb88e867124154cd5f2e5130220615f69030ec631c99e611c8cd4f55e69d7ea256e ++
      beBytes 13 0x71d918fc7734ad3cf4b1d26501,
    0xffffffff⟩]
  txOut := [
    ⟨1000, beBytes 26 0x52147e4ff499ec39cd297129cb7ff89bbcea01ad6a74515253ba⟩]
  lockTime := 0

/-- Moves the issue thread on from `issueTx`. -/
def forwardTx : MsgTx where
  version := 1
  txIn := [⟨⟨0x6761138c0d21b2e6a894f1dde6fc92fc8f0e4b44d065ef320f266c833539bbdb, 0⟩,
    beBytes 40 0x2102ef7739dc67d38f2804a9c0aa1add89a992ced5f37e580ea8ccbb5742391337ab473044022074 ++
      beBytes 40 0x51c0370a81869224b5d6d57d59d2e6f107caf64cfccaa0208afd25c848c52902202e71c541b93d28 ++
      beBytes 40 0x449a70b055c799b5b707d83fa40b783326f0192cf92bef00930121021126d3d6158cf4f47eb2e08d ++
      beBytes 40 0x12e9fa46d8da7b7e401220260bdc46446f1337ab47304402206d227bffce8959539104204dd213be ++
      beBytes 40 0xe367af889f021a62255f2b4b9f7022522c022068cab93bbc89c2a0154cfcf23cfdfba5c3418dfc61 ++
      beBytes 12 0x5242f8fc5d766748d85c5001,
    0xffffffff⟩]
  txOut := [
    ⟨0, [0x52, 0xbb]⟩,
    ⟨7, beBytes 26 0x52147e4ff499ec39cd297129cb7ff89bbcea01ad6a74515253ba⟩]
  lockTime := 0

/-- `issueTx` with 5 atoms in the thread output. -/
def overpaidTx : MsgTx where
  version := 1
  txIn := [⟨⟨0x0f9116ac9980fc6bdcf7875457c203e86ef17ac5f593ca7fecc6c462fa52e7a5, 2⟩,
    beBytes 40 0x2102ef7739dc67d38f2804a9c0aa1add89a992ced5f37e580ea8ccbb5742391337ab483045022100 ++
      beBytes 40 0xc4b4f208df773d0b5a08ce948b30c1026ed756aa56d39935d689ed096ebb884302206a13c0567619 ++
      beBytes 40 0xa67b5bcf94d17802d4f7052bf67f6a02719bcf39dab7496085d00121021126d3d6158cf4f47eb2e0 ++
      beBytes 40 0x8d12e9fa46d8da7b7e401220260bdc46446f1337ab47304402203da9d89538528d54bc4b719846af ++
      beBytes 40 0xa642cda302fd35ce66ba5dfd8d5591c5aca2022025b9ddeb0369981e38012e31ef212c382be434ef ++
      beBytes 13 0x08594fc2c4bad6c0d9df61ae01,
    0xffffffff⟩]
  txOut := [
    ⟨5, [0x52, 0xbb]⟩,
    ⟨1000, beBytes 26 0x52147e4ff499ec39cd297129cb7ff89bbcea01ad6a74515253ba⟩]
  lockTime := 0

/-- Revokes every validate key of the network. -/
def revokeTx : MsgTx where
  version := 1
  txIn := [⟨⟨0x0f9116ac9980fc6bdcf7875457c203e86ef17ac5f593ca7fecc6c462fa52e7a5, 1⟩,
    beBytes 40 0x210248b3b4e579444e6b7cc414510109316c4c9ba7a2a46f50f8dcbb273efb1337ab473044022004 ++
      beBytes 40 0xb071219ad0a4142fff593ff075994924962e473ef19019314d94aa707118cc02206f53021f2d3c93 ++
      beBytes 40 0x8506d7cee658932536236de5f562d473d64ad4d1933f24f086012102ef86c70ae6afd2dd2f0efb07 ++
      beBytes 40 0xea59789c27a1bf43f687b35dac435b539e1337ab483045022100a0eb6fc29eed4f5d0d533c367fc1 ++
      beBytes 40 0x30b1e4c5c84ba6941c8b20d395afd02b768a02206544435736a1f790b72eee9c4524824a136b8a22 ++
      beBytes 13 0x73877736b32b4822ca56d32801,
    0xffffffff⟩]
  txOut := [
    ⟨0, [0x51, 0xbb]⟩,
    ⟨0, beBytes 36 0x6a2212035f5103852bd7d9c9c28e44caf1f7188941e16295062ca4c89928a8ccff993cd3⟩,
    ⟨0, beBytes 36 0x6a22120265de49399e78020026219492e2a6e1a41e93591b87220ae8a2f3ebf3473dbeef⟩,
    ⟨0, beBytes 36 0x6a2212039cb94c99c4700918250c40fa35b7fa0a75a967c9366aa19b8fc354373368beef⟩,
    ⟨0, beBytes 36 0x6a2212031337ab09070254638075c7b59643dce2d60c5260bf5841d2f8cc6f75f6790d4e⟩,
    ⟨0, beBytes 36 0x6a221203133752072c8bc132679655c671b7953c2edabc575f42d60fa2e4caac09770061⟩,
    ⟨0, beBytes 36 0x6a221202ab82d1531552c5b67e528047542ff9a2550ee4df7a88d67037754069db0541f9⟩,
    ⟨0, beBytes 36 0x6a221202ab8264fdb09480d07b4db2d25db28065d51ea2950da89b7366d13b3c7be25e92⟩,
    ⟨0, beBytes 36 0x6a221202ab829a899bb14365e45099062b9a9543e8c51d4ace1ddfb7ef52320bb6dabbdd⟩,
    ⟨0, beBytes 36 0x6a221202ab8201f1834926a5388ca4157f56008238b84fdcd0bd208647151ef617ac49ed⟩,
    ⟨0, beBytes 36 0x6a221202ab821a995287881d383718476bf2305dee70174a4727688070701490c526061b⟩,
    ⟨0, beBytes 36 0x6a221202ab82faed27170fc9c2dc3ab57ebba5c0d2649b6044011c77ca4b27aef05c6e07⟩]
  lockTime := 0

/-- Provisions two ASP keys, with the next two keyIDs. -/
def provisionTx : MsgTx where
  version := 1
  txIn := [⟨⟨0x0f9116ac9980fc6bdcf7875457c203e86ef17ac5f593ca7fecc6c462fa52e7a5, 1⟩,
    beBytes 40 0x210248b3b4e579444e6b7cc414510109316c4c9ba7a2a46f50f8dcbb273efb1337ab473044022057 ++
      beBytes 40 0x47934dbf126a6a0d95d43d82cf48b4736a9637e7beb41945221577782fcadd022041f98b868f5921 ++
      beBytes 40 0x9e070233bbc4c6695480e2e6b2c68c03151b096099c6f45d18012102ef86c70ae6afd2dd2f0efb07 ++
      beBytes 40 0xea59789c27a1bf43f687b35dac435b539e1337ab473044022073851dba1626bcc767651c9c8c78f8 ++
      beBytes 40 0xef361bedbadd8ccdbaea6228b6d7044f09022045258cf1e3ed10cd5196bb0fe25a567fd8c202453d ++
      beBytes 12 0xd8fa977baf991a7d3e9e2901,
    0xffffffff⟩]
  txOut := [
    ⟨0, [0x51, 0xbb]⟩,
    ⟨0, beBytes 40 0x6a261302d2c1cb1575d323b6120b6e5bcc9ce5ad373e88e73e675030f1c2c5261b4dbc8603000000⟩,
    ⟨0, beBytes 40 0x6a261303f86236d004c9c43a203cac349a50bb8f8c67f95a358f95187de878912b0fd0b604000000⟩]
  lockTime := 0

def issueKeysTx : MsgTx where
  version := 1
  txIn := [⟨⟨0x0f9116ac9980fc6bdcf7875457c203e86ef17ac5f593ca7fecc6c462fa52e7a5, 0⟩,
    beBytes 40 0x21025ceeba2ab4a635df2c0301a3d773da06ac5a18a7c3e0d09a795d7e57d233edf1473044022008 ++
      beBytes 40 0x06e800ce89777a371569d16ae67aa6624168a276d29306806970b24d1373fe02201e2183b5c3e8e0 ++
      beBytes 40 0xd7a4a637467c3d2483439d244f5a1e2598dcd0024abc6778640121038ef4a121bcaf1b1f175557a1 ++
      beBytes 40 0x2896f8bc93b095e84817f90e9a901cd2113a8202483045022100d8343fd38e1904757020a873fc5d ++
      beBytes 40 0x0c07d44684e42a2eb49c3eed4addf16528d702204e5e790c26b5058b28b6e21b85ff16f673a90b80 ++
      beBytes 13 0x1c343a5ff33e474bb5a889c601,
    0xffffffff⟩]
  txOut := [
    ⟨0, [0x00, 0xbb]⟩,
    ⟨0, beBytes 36 0x6a2201033beb414af4effc4293ef8d3814ecb3cc077af29d0f2bdc73308fe9f7cf6e72cf⟩,
    ⟨0, beBytes 36 0x6a220102f672e925f9102ddcff2134e9109626c11dc0f018408a48962edd694162f317dc⟩,
    ⟨0, beBytes 36 0x6a2201022cc598fd315733ce8f2e5a2a469cc2b56212d2b83472585ea71f5ca848a52f17⟩,
    ⟨0, beBytes 36 0x6a22010259624ecec74a150075d6d62d55ac54021e572ebe38cbbfdadbe82df114da926c⟩,
    ⟨0, beBytes 36 0x6a220102203b737dc0ae7e763cee26d19d9348dd67a6a8f4004046cb9e817f243eab4ec9⟩,
    ⟨0, beBytes 36 0x6a22010201ed3f6c48d139a35dc7b69631a75802eac31a1670a51cb12e6b2ae5709efcd3⟩,
    ⟨0, beBytes 36 0x6a220103b975d819a36d60b8fba6d606a19d7af12b231fd1b16d5007288fd3a37edf7781⟩,
    ⟨0, beBytes 36 0x6a22010266575e5128f9b36988682d78356892d084b4ec7c903c0197615a34a3382444ff⟩,
    ⟨0, beBytes 36 0x6a220103319538927e5433f9442af0c17964971106a4c49668336153e1c515ca086d1eed⟩,
    ⟨0, beBytes 36 0x6a22010234b20db6d5f989de1528536d8135339f85e013557a5ad5fa9018196a1c471c2d⟩,
    ⟨0, beBytes 36 0x6a220102757d0ee3cb95e2e1a1f5225b477ebba5740072069775a253917069b68ba70814⟩,
    ⟨0, beBytes 36 0x6a2201024ab5cb495ea47feff875ce4773b2125d7073652c0944cca4a1d2ba5f878f30d3⟩,
    ⟨0, beBytes 36 0x6a2201021891f6caa671f72502c1eb8ffac19848e1e8324e46891154e615df9f4915f9ed⟩,
    ⟨0, beBytes 36 0x6a220102de5ac977866829d2583210fad183faa7abc0f2824e97a0d2a6a4d329d3e3f957⟩,
    ⟨0, beBytes 36 0x6a2201031564141473361db1ddc81ce898b60efc895d21fed5990a629edbd00e3760f64b⟩,
    ⟨0, beBytes 36 0x6a220102cb408c827f14ae289b74e66f3e8b1f57034a5937745de703bccf8337828da9dd⟩,
    ⟨0, beBytes 36 0x6a2201026b2ecbb63af07b42034104975a0e08183cc930d16d78d869618996293d772ea7⟩,
    ⟨0, beBytes 36 0x6a220103750fa603c198202a33113311a42d88c757cb413778a0ad07ef55803c070fb80c⟩,
    ⟨0, beBytes 36 0x6a2201037ff34d82f1489d039d01954ff008a92bde12116418f55253cc671b649e1a1933⟩]
  lockTime := 0

/-! ### Blocks -/

/-- A block with nothing but its coinbase. -/
def plainBlock : MsgBlock where
  header := {
    version := 4
    prevBlock := 0x7255f2077d7848c715ae470e4524ae382ce6185fa6ab43b89b275847d822e2e0
    merkleRoot := 0xe2e571ca17460c34fa7626a49b3f359ba686f31f19982da65a741b58facad0e7
    timestamp := 0x58DC30B8
    bits := 0x200f0f0f
    height := 1
    size := 273
    nonce := 30
    validatingPubKey := ⟨beBytes 33 0x03133752072c8bc132679655c671b7953c2edabc575f42d60fa2e4caac09770061, rfl⟩
    signature := ⟨beBytes 40 0x3045022100f5845378cb0150dd4cb196ab52f80a5f33d7d63a6cbdd4994e6b79680e9e8bbc022076 ++
      beBytes 31 0xd1c961b6124b1b1c70e8c2f4f3576e78c150b0074279d9105a1984b3906fc7 ++
      List.replicate 9 0, rfl⟩ }
  transactions := [coinbaseTx]

/-- A block that issues and spends in the same block. -/
def issueBlock : MsgBlock where
  header := {
    version := 4
    prevBlock := 0x7255f2077d7848c715ae470e4524ae382ce6185fa6ab43b89b275847d822e2e0
    merkleRoot := 0x599248fe065e4d798bf76871a6bbb53d53293323524d156c0ea685b89d45ed7c
    timestamp := 0x58DC30B9
    bits := 0x200f0f0f
    height := 1
    size := 882
    nonce := 37
    validatingPubKey := ⟨beBytes 33 0x03133752072c8bc132679655c671b7953c2edabc575f42d60fa2e4caac09770061, rfl⟩
    signature := ⟨beBytes 40 0x3045022100999f79bf770118d946ab5b938f53176995e510cfaab3055f6d4f5be717d669f5022076 ++
      beBytes 31 0xca371ee6a88801e132353d5e66eab3466e6cedd48a5d5eb5747b67767515e0 ++
      List.replicate 9 0, rfl⟩ }
  transactions := [coinbaseTx, issueTx, spendTx]

def issueTipBlock : MsgBlock where
  header := {
    version := 4
    prevBlock := 0x050c526bb1179c9321e180d6d9a422e5e0a98173edd62a46c3fecaea31776637
    merkleRoot := 0xe2e571ca17460c34fa7626a49b3f359ba686f31f19982da65a741b58facad0e7
    timestamp := 0x58DC30F4
    bits := 0x200f0f0f
    height := 2
    size := 273
    nonce := 5
    validatingPubKey := ⟨beBytes 33 0x03133752072c8bc132679655c671b7953c2edabc575f42d60fa2e4caac09770061, rfl⟩
    signature := ⟨beBytes 40 0x304402202339a3a5ffcc3b8add3de293075b52e6ee186886d41011bd04de0a7e5a4468f70220521d ++
      beBytes 30 0x8ca68d87c3bd5d6c7f5f4fb41b95245f74c20409dd8c262d7bb899eee1f3 ++
      List.replicate 10 0, rfl⟩ }
  transactions := [coinbaseTx]

/-- A block that revokes every validate key, signed with a key that was never one of them. -/
def revokeBlock : MsgBlock where
  header := {
    version := 4
    prevBlock := 0x7255f2077d7848c715ae470e4524ae382ce6185fa6ab43b89b275847d822e2e0
    merkleRoot := 0x7fb86708707c0203c3346888720c05054568200f465617824dca2f34a00d4b9e
    timestamp := 0x58DC30BA
    bits := 0x200f0f0f
    height := 1
    size := 1043
    nonce := 0
    validatingPubKey := ⟨beBytes 33 0x03f86236d004c9c43a203cac349a50bb8f8c67f95a358f95187de878912b0fd0b6, rfl⟩
    signature := ⟨beBytes 40 0x3044022009c5f67406e2d98f6e8811f54adfa3f79972e1f756cb2b2481b69641a2ed2a4402200bc8 ++
      beBytes 30 0x07aa713bf9e689b0604b49c5b4d7fc9295658cd41a9a02c465914476a1cf ++
      List.replicate 10 0, rfl⟩ }
  transactions := [coinbaseTx, revokeTx]

def provisionBlock : MsgBlock where
  header := {
    version := 4
    prevBlock := 0x7255f2077d7848c715ae470e4524ae382ce6185fa6ab43b89b275847d822e2e0
    merkleRoot := 0x5aefd0d9aca3ba375f789bc4f8525022547b3dcceb2a2a7b4927f3a9c5a9434c
    timestamp := 0x58DC30BB
    bits := 0x200f0f0f
    height := 1
    size := 645
    nonce := 5
    validatingPubKey := ⟨beBytes 33 0x03133752072c8bc132679655c671b7953c2edabc575f42d60fa2e4caac09770061, rfl⟩
    signature := ⟨beBytes 40 0x3045022100ebeed0c09d3e7f8f5471997937371be5e8d776f76d90a7e93be332406ef6c3eb022053 ++
      beBytes 31 0xea47c92316e53e2796fad75a0ff1b3d9e1eebaea964442a2e1951005313910 ++
      List.replicate 9 0, rfl⟩ }
  transactions := [coinbaseTx, provisionTx]

def overpaidBlock : MsgBlock where
  header := {
    version := 4
    prevBlock := 0x7255f2077d7848c715ae470e4524ae382ce6185fa6ab43b89b275847d822e2e0
    merkleRoot := 0x303d5a780eab0fa7bd5c0e4ac36cdd3b56de8faecf9c8da58fbb51801b1b8d9b
    timestamp := 0x58DC30BC
    bits := 0x200f0f0f
    height := 1
    size := 583
    nonce := 36
    validatingPubKey := ⟨beBytes 33 0x03133752072c8bc132679655c671b7953c2edabc575f42d60fa2e4caac09770061, rfl⟩
    signature := ⟨beBytes 40 0x3044022064050d93bb42a0276ef6a65a2ab4e2b6ec6d34ca184dcb7ce638926934b05629022068b9 ++
      beBytes 30 0x1eb51530a35d371837de20fcc2bd0fc797d8db8788f2cc59e0a69c3fddf1 ++
      List.replicate 10 0, rfl⟩ }
  transactions := [coinbaseTx, overpaidTx]

/-- A block in which `forwardTx` stands before `issueTx`, whose thread output it spends. -/
def forwardBlock : MsgBlock where
  header := {
    version := 4
    prevBlock := 0x7255f2077d7848c715ae470e4524ae382ce6185fa6ab43b89b275847d822e2e0
    merkleRoot := 0xfb3fdec157664fc70cb627f1656d98b7ea2ded0d471af385cbd2257d676e7bb0
    timestamp := 0x58DC30BD
    bits := 0x200f0f0f
    height := 1
    size := 1191
    nonce := 14
    validatingPubKey := ⟨beBytes 33 0x03133752072c8bc132679655c671b7953c2edabc575f42d60fa2e4caac09770061, rfl⟩
    signature := ⟨beBytes 40 0x304402205223fb76d3269dd789883b3d36a0a81b30f2cb184f57472c3381a25d568d606102200d11 ++
      beBytes 30 0xc498cbb91e8914de8c7f5b64103d0938c7eeaf0d2aef08b277864783f7b4 ++
      List.replicate 10 0, rfl⟩ }
  transactions := [coinbaseTx, forwardTx, issueTx, spendTx]

def issueKeysBlock : MsgBlock where
  header := {
    version := 4
    prevBlock := 0x7255f2077d7848c715ae470e4524ae382ce6185fa6ab43b89b275847d822e2e0
    merkleRoot := 0x9ece343157110218788b02ca315d31c682e452b16ee05d75e35dc354b680467b
    timestamp := 0x58DC30C0
    bits := 0x200f0f0f
    height := 1
    size := 1403
    nonce := 4
    validatingPubKey := ⟨beBytes 33 0x03133752072c8bc132679655c671b7953c2edabc575f42d60fa2e4caac09770061, rfl⟩
    signature := ⟨beBytes 40 0x3044022063fefcbfa6755d830858995c1121e7f63260b1a799937feff19bde52fed4250402207dcf ++
      beBytes 30 0x639a5a01f983dfdbf856199bc94bfbf2ce94629e1032f3d63cb49a73fd9e ++
      List.replicate 10 0, rfl⟩ }
  transactions := [coinbaseTx, issueKeysTx]

end Sample

end Prova
