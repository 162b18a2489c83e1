import StarkPerpetual.Bn
import StarkPerpetual.RangeCheck
import StarkPerpetual.Pack
import StarkPerpetual.Messages
import StarkPerpetual.Validation
import StarkPerpetual.Layout
import StarkPerpetual.Operation
import StarkPerpetual.Refinement
import StarkPerpetual.Binding
import StarkPerpetual.Separation
import StarkPerpetual.Collaborator
